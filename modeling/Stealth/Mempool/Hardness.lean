import Stealth.Mempool.Feework

/-!
The memory cost of feework, compounded in 64 bits while the block fills up, and its difficulty in 128 bits.
-/

namespace Stealth

variable {nCost n nBlockSize nBytes : Nat}

def raiseCost64 (nCost : UInt64) : Nat → UInt64
  | 0 => nCost
  | n + 1 => raiseCost64 (nCost * (1000 * (100 + UInt64.ofNat FEEWORK_COST_PCT_JUMP_PER_PART)) / 100000) n

def getFeeworkHardness32 (nBlockSize : UInt32) (mode : GetMinFeeMode) (nBytes : UInt32) : UInt32 :=
  let nMaxSize := UInt64.ofNat FEELESS_MAX_BLOCK_SIZE
  let nParts := UInt64.ofNat FEEWORK_BLOCK_PARTS
  let nBaseCost :=
    UInt64.ofNat (if mode = .relay then RELAY_FEELESS_MCOST_MIN else FEELESS_MCOST_MIN)
  let nCost := (1 + nBytes.toUInt64 / 1000) * nBaseCost
  let nNewBlockSize := (nBlockSize + nBytes).toUInt64
  if nNewBlockSize > nMaxSize then 0xffffffff
  else
    -- the counter of the loop starts at 2
    let nCost := raiseCost64 nCost ((nParts * nNewBlockSize / nMaxSize).toNat - 1)
    (if 0xffffffff < nCost then 0xffffffff else nCost).toUInt32

def raiseProducts (nCost : Nat) : Nat → List Nat
  | 0 => []
  | n + 1 =>
    let nProduct := nCost * (1000 * (100 + FEEWORK_COST_PCT_JUMP_PER_PART))
    nProduct :: raiseProducts (nProduct / 100000) n

/-- All intermediate sums and products of `GetFeeworkHardness`, in unbounded numbers, with the width of
the machine integer that holds each. -/
def hardnessProducts (nBlockSize : Nat) (mode : GetMinFeeMode) (nBytes : Nat) : List (Nat × Nat) :=
  let nBaseCost := if mode = .relay then RELAY_FEELESS_MCOST_MIN else FEELESS_MCOST_MIN
  let nCost := (1 + nBytes / 1000) * nBaseCost
  let nNewBlockSize := nBlockSize + nBytes
  (nNewBlockSize, 32) :: (nCost, 64) ::
    if FEELESS_MAX_BLOCK_SIZE < nNewBlockSize then []
    else
      (FEEWORK_BLOCK_PARTS * nNewBlockSize, 64) ::
        (raiseProducts nCost (FEEWORK_BLOCK_PARTS * nNewBlockSize / FEELESS_MAX_BLOCK_SIZE - 1)).map (·, 64)

theorem raiseCost_mono_left {nCost' : Nat} (h : nCost ≤ nCost') (n : Nat) :
    raiseCost nCost n ≤ raiseCost nCost' n := by
  induction n generalizing nCost nCost' with
  | zero => exact h
  | succ n ih =>
    apply ih
    exact Nat.div_le_div_right (Nat.mul_le_mul_right _ h)

theorem le_raiseCost (nCost n : Nat) : nCost ≤ raiseCost nCost n := by
  induction n generalizing nCost with
  | zero => exact Nat.le_refl nCost
  | succ n ih =>
    have hstep : nCost ≤ nCost * 110000 / 100000 := by omega
    exact Nat.le_trans hstep (ih _)

theorem raiseCost_add (nCost m n : Nat) : raiseCost nCost (m + n) = raiseCost (raiseCost nCost m) n := by
  induction m generalizing nCost with
  | zero => rw [Nat.zero_add, raiseCost]
  | succ m ih =>
    rw [Nat.succ_add, raiseCost, raiseCost]
    exact ih _

theorem raiseCost_mono {nCost' n' : Nat} (hcost : nCost ≤ nCost') (hrounds : n ≤ n') :
    raiseCost nCost n ≤ raiseCost nCost' n' := by
  obtain ⟨k, rfl⟩ := Nat.exists_eq_add_of_le hrounds
  calc
    raiseCost nCost n ≤ raiseCost nCost' n := raiseCost_mono_left hcost n
    _ ≤ raiseCost (raiseCost nCost' n) k := le_raiseCost _ k
    _ = raiseCost nCost' (n + k) := (raiseCost_add nCost' n k).symm

theorem raiseProducts_lt {bound : Nat} (h : nCost * 2 ^ n ≤ bound) :
    ∀ p ∈ raiseProducts nCost n, p ≤ bound * 110000 := by
  induction n generalizing nCost with
  | zero =>
    intro p hp
    exact absurd hp List.not_mem_nil
  | succ n ih =>
    intro p hp
    rw [raiseProducts, List.mem_cons] at hp
    rcases hp with rfl | hp
    · have hone : nCost * 1 ≤ nCost * 2 ^ (n + 1) := Nat.mul_le_mul_left _ Nat.one_le_two_pow
      exact Nat.mul_le_mul_right _ (by omega)
    · apply ih _ p hp
      have hdouble : nCost * 110000 / 100000 ≤ nCost * 2 := by omega
      calc
        nCost * 110000 / 100000 * 2 ^ n ≤ nCost * 2 * 2 ^ n := Nat.mul_le_mul_right _ hdouble
        _ = nCost * 2 ^ (n + 1) := by rw [Nat.pow_succ', Nat.mul_assoc]
        _ ≤ bound := h

theorem toNat_raiseCost64 {nCost : UInt64} (h : ∀ p ∈ raiseProducts nCost.toNat n, p < 2 ^ 64) :
    (raiseCost64 nCost n).toNat = raiseCost nCost.toNat n := by
  induction n generalizing nCost with
  | zero => rfl
  | succ n ih =>
    rw [raiseProducts] at h
    have hproduct := h _ List.mem_cons_self
    have hmultiplier : (1000 * (100 + UInt64.ofNat FEEWORK_COST_PCT_JUMP_PER_PART)).toNat =
        1000 * (100 + FEEWORK_COST_PCT_JUMP_PER_PART) := rfl
    have hstep : (nCost * (1000 * (100 + UInt64.ofNat FEEWORK_COST_PCT_JUMP_PER_PART)) / 100000).toNat =
        nCost.toNat * (1000 * (100 + FEEWORK_COST_PCT_JUMP_PER_PART)) / 100000 := by
      rw [UInt64.toNat_div, UInt64.toNat_mul, hmultiplier, Nat.mod_eq_of_lt hproduct]
      rfl
    rw [raiseCost64, raiseCost, ← hstep]
    apply ih
    intro p hp
    rw [hstep] at hp
    exact h p (List.mem_cons_of_mem _ hp)

theorem baseCost_eq (mode : GetMinFeeMode) :
    (if mode = .relay then RELAY_FEELESS_MCOST_MIN else FEELESS_MCOST_MIN) = 256 := by
  split <;> rfl

theorem getFeeworkHardness_eq (nBlockSize : Nat) (mode : GetMinFeeMode) (nBytes : Nat) :
    getFeeworkHardness nBlockSize mode nBytes =
      if FEELESS_MAX_BLOCK_SIZE < nBlockSize + nBytes then 0xffffffff
      else
        min (raiseCost ((1 + nBytes / 1000) * 256)
          (FEEWORK_BLOCK_PARTS * (nBlockSize + nBytes) / FEELESS_MAX_BLOCK_SIZE - 1)) 0xffffffff := by
  rw [getFeeworkHardness, baseCost_eq]

theorem hardnessProducts_fit (mode : GetMinFeeMode)
    (hblock : nBlockSize ≤ MAX_BLOCK_SIZE) (hbytes : nBytes ≤ MAX_BLOCK_SIZE) :
    ∀ p ∈ hardnessProducts nBlockSize mode nBytes, p.1 < 2 ^ p.2 := by
  have hlimit : MAX_BLOCK_SIZE = 1000000 := rfl
  have hmax : FEELESS_MAX_BLOCK_SIZE = 200000 := rfl
  have hparts : FEEWORK_BLOCK_PARTS = 31 := rfl
  intro p hp
  rw [hardnessProducts, baseCost_eq] at hp
  rw [List.mem_cons, List.mem_cons] at hp
  rcases hp with rfl | rfl | hp
  · dsimp only
    omega
  · dsimp only
    omega
  · split at hp
    · exact absurd hp List.not_mem_nil
    · next hsize =>
      rw [List.mem_cons, List.mem_map] at hp
      rcases hp with rfl | ⟨product, hproduct, rfl⟩
      · rw [hparts]
        dsimp only
        omega
      · have hrounds : FEEWORK_BLOCK_PARTS * (nBlockSize + nBytes) / FEELESS_MAX_BLOCK_SIZE - 1 ≤ 30 := by
          rw [hparts, hmax]
          omega
        have hcost : (1 + nBytes / 1000) * 256 ≤ 51456 := by omega
        have hpow := Nat.pow_le_pow_right (n := 2) (by decide) hrounds
        have hle := raiseProducts_lt (Nat.mul_le_mul hcost hpow) product hproduct
        dsimp only
        omega

theorem toNat_ofNat_of_le_limit (h : n ≤ MAX_BLOCK_SIZE) : (UInt32.ofNat n).toNat = n :=
  UInt32.toNat_ofNat_of_lt' (Nat.lt_of_le_of_lt h (by decide))

theorem toNat_newBlockSize (hblock : nBlockSize ≤ MAX_BLOCK_SIZE) (hbytes : nBytes ≤ MAX_BLOCK_SIZE) :
    (UInt32.ofNat nBlockSize + UInt32.ofNat nBytes).toUInt64.toNat = nBlockSize + nBytes := by
  have hlimit : MAX_BLOCK_SIZE = 1000000 := rfl
  rw [UInt32.toNat_toUInt64, UInt32.toNat_add, toNat_ofNat_of_le_limit hblock, toNat_ofNat_of_le_limit hbytes]
  omega

theorem toNat_startCost (hbytes : nBytes ≤ MAX_BLOCK_SIZE) :
    ((1 + (UInt32.ofNat nBytes).toUInt64 / 1000) * UInt64.ofNat 256).toNat = (1 + nBytes / 1000) * 256 := by
  have hlimit : MAX_BLOCK_SIZE = 1000000 := rfl
  have hone : (1 : UInt64).toNat = 1 := rfl
  have hkilo : (1000 : UInt64).toNat = 1000 := rfl
  have hbase : (UInt64.ofNat 256).toNat = 256 := rfl
  rw [UInt64.toNat_mul, UInt64.toNat_add, UInt64.toNat_div, UInt32.toNat_toUInt64,
    toNat_ofNat_of_le_limit hbytes, hone, hkilo, hbase]
  omega

theorem toNat_min_toUInt32 (n : UInt64) :
    (if 0xffffffff < n then 0xffffffff else n).toUInt32.toNat = min n.toNat 0xffffffff := by
  have hmax : (0xffffffff : UInt64).toNat = 0xffffffff := rfl
  have hiff : 0xffffffff < n ↔ 0xffffffff < n.toNat := by rw [UInt64.lt_iff_toNat_lt, hmax]
  rw [UInt64.toNat_toUInt32]
  split
  · next hlt =>
    have hnat := hiff.1 hlt
    omega
  · next hle =>
    have hnat := mt hiff.2 hle
    omega

theorem toNat_getFeeworkHardness32 (mode : GetMinFeeMode)
    (hblock : nBlockSize ≤ MAX_BLOCK_SIZE) (hbytes : nBytes ≤ MAX_BLOCK_SIZE) :
    (getFeeworkHardness32 (UInt32.ofNat nBlockSize) mode (UInt32.ofNat nBytes)).toNat =
      getFeeworkHardness nBlockSize mode nBytes := by
  have hmax : (UInt64.ofNat FEELESS_MAX_BLOCK_SIZE).toNat = FEELESS_MAX_BLOCK_SIZE := rfl
  have hparts : (UInt64.ofNat FEEWORK_BLOCK_PARTS).toNat = FEEWORK_BLOCK_PARTS := rfl
  have hsum := toNat_newBlockSize hblock hbytes
  have hcost := toNat_startCost hbytes
  have hfit := hardnessProducts_fit mode hblock hbytes
  have hiff : (UInt32.ofNat nBlockSize + UInt32.ofNat nBytes).toUInt64 > UInt64.ofNat FEELESS_MAX_BLOCK_SIZE ↔
      FEELESS_MAX_BLOCK_SIZE < nBlockSize + nBytes := by
    rw [gt_iff_lt, UInt64.lt_iff_toNat_lt, hsum, hmax]
  rw [getFeeworkHardness32, getFeeworkHardness_eq, baseCost_eq]
  by_cases hfull : FEELESS_MAX_BLOCK_SIZE < nBlockSize + nBytes
  · rw [if_pos hfull, if_pos (hiff.2 hfull)]
    rfl
  · rw [hardnessProducts, baseCost_eq, if_neg hfull] at hfit
    have hproduct : FEEWORK_BLOCK_PARTS * (nBlockSize + nBytes) < 2 ^ 64 :=
      hfit (_, 64) (List.mem_cons_of_mem _ (List.mem_cons_of_mem _ List.mem_cons_self))
    have hrounds : (UInt64.ofNat FEEWORK_BLOCK_PARTS *
        (UInt32.ofNat nBlockSize + UInt32.ofNat nBytes).toUInt64 / UInt64.ofNat FEELESS_MAX_BLOCK_SIZE).toNat =
          FEEWORK_BLOCK_PARTS * (nBlockSize + nBytes) / FEELESS_MAX_BLOCK_SIZE := by
      rw [UInt64.toNat_div, UInt64.toNat_mul, hsum, hparts, hmax, Nat.mod_eq_of_lt hproduct]
    rw [if_neg hfull, if_neg (mt hiff.1 hfull)]
    dsimp only
    rw [toNat_min_toUInt32, hrounds, toNat_raiseCost64, hcost]
    intro p hp
    rw [hcost] at hp
    apply hfit (p, 64)
    apply List.mem_cons_of_mem
    apply List.mem_cons_of_mem
    apply List.mem_cons_of_mem
    exact List.mem_map_of_mem hp

theorem getFeeworkHardness_mono (mode : GetMinFeeMode) {nBlockSize' nBytes' : Nat}
    (hblock : nBlockSize ≤ nBlockSize') (hbytes : nBytes ≤ nBytes') :
    getFeeworkHardness nBlockSize mode nBytes ≤ getFeeworkHardness nBlockSize' mode nBytes' := by
  have hsum : nBlockSize + nBytes ≤ nBlockSize' + nBytes' := Nat.add_le_add hblock hbytes
  rw [getFeeworkHardness_eq, getFeeworkHardness_eq]
  by_cases hfull : FEELESS_MAX_BLOCK_SIZE < nBlockSize' + nBytes'
  · rw [if_pos hfull]
    split
    · exact Nat.le_refl _
    · exact Nat.min_le_right _ _
  · have hroom : ¬ FEELESS_MAX_BLOCK_SIZE < nBlockSize + nBytes := by omega
    rw [if_neg hfull, if_neg hroom]
    apply min_le_min_right
    apply raiseCost_mono
    · apply Nat.mul_le_mul_right
      have hkilo := Nat.div_le_div_right (c := 1000) hbytes
      omega
    · have hrounds := Nat.div_le_div_right (c := FEELESS_MAX_BLOCK_SIZE)
        (Nat.mul_le_mul_left FEEWORK_BLOCK_PARTS hsum)
      omega

/-- In a block that is full for feeless transactions no admissible memory cost is enough. -/
theorem check_of_full (mode : GetMinFeeMode)
    (hfull : FEELESS_MAX_BLOCK_SIZE < nBlockSize + nBytes) {feework : Feework}
    (hfresh : feework.isChecked = false) (hmcost : feework.mcost ≤ FEEWORK_MAX_MCOST) :
    (feework.check (getFeeworkHardness nBlockSize mode nBytes)).status = .lowMCost := by
  have hmax : FEEWORK_MAX_MCOST = 4608 := rfl
  rw [getFeeworkHardness, if_pos hfull, Feework.check]
  dsimp only
  rw [hfresh, if_neg Bool.false_ne_true, if_pos (by omega)]

/-- Within the limits of a block the hardness is computed without overflow, it grows with both sizes, and a
block that is full for feeless transactions takes no feework. -/
theorem getFeeworkHardness_limits (mode : GetMinFeeMode) {nBlockSize nBytes : Nat}
    (hblock : nBlockSize ≤ MAX_BLOCK_SIZE) (hbytes : nBytes ≤ MAX_BLOCK_SIZE) :
    (∀ p ∈ hardnessProducts nBlockSize mode nBytes, p.1 < 2 ^ p.2) ∧
      (getFeeworkHardness32 (UInt32.ofNat nBlockSize) mode (UInt32.ofNat nBytes)).toNat =
        getFeeworkHardness nBlockSize mode nBytes ∧
      (∀ nBlockSize' nBytes', nBlockSize ≤ nBlockSize' → nBlockSize' ≤ MAX_BLOCK_SIZE →
        nBytes ≤ nBytes' → nBytes' ≤ MAX_BLOCK_SIZE →
        getFeeworkHardness32 (UInt32.ofNat nBlockSize) mode (UInt32.ofNat nBytes) ≤
          getFeeworkHardness32 (UInt32.ofNat nBlockSize') mode (UInt32.ofNat nBytes')) ∧
      (FEELESS_MAX_BLOCK_SIZE < nBlockSize + nBytes → ∀ feework : Feework,
        feework.isChecked = false → feework.mcost ≤ FEEWORK_MAX_MCOST →
        (feework.check (getFeeworkHardness32 (UInt32.ofNat nBlockSize) mode
          (UInt32.ofNat nBytes)).toNat).isOK = false) := by
  have hexact := toNat_getFeeworkHardness32 mode hblock hbytes
  refine ⟨hardnessProducts_fit mode hblock hbytes, hexact, ?_, ?_⟩
  · intro nBlockSize' nBytes' hle hblock' hle' hbytes'
    rw [UInt32.le_iff_toNat_le, hexact, toNat_getFeeworkHardness32 mode hblock' hbytes']
    exact getFeeworkHardness_mono mode hle hle'
  · intro hfull feework hfresh hmcost
    rw [hexact, Feework.isOK, check_of_full mode hfull hfresh hmcost]
    rfl

theorem getFeeworkHardness_limits_half : getFeeworkHardness32 (UInt32.ofNat 1000) .block (UInt32.ofNat 300) ≤
        getFeeworkHardness32 (UInt32.ofNat 100000) .block (UInt32.ofNat 300) ∧
      (Feework.check (getFeeworkHardness32 (UInt32.ofNat 199900) .block (UInt32.ofNat 300)).toNat
        { mcost := 4608 }).isOK = false := by
  have hgrows := (@getFeeworkHardness_limits .block 1000 300 (by decide) (by decide)).2.2.1
  have hfull := (@getFeeworkHardness_limits .block 199900 300 (by decide) (by decide)).2.2.2
  exact ⟨hgrows 100000 300 (by decide) (by decide) (by decide) (by decide),
    hfull (by decide) { mcost := 4608 } rfl (by decide)⟩

namespace Feework

def exactDiff (feework : Feework) : Int :=
  TX_FEEWORK_LIMIT.toNat * MIN_TX_FEE / feework.hash.toNat * feework.mcost / FEELESS_MCOST_MIN

def maxDiff : Int := 2 ^ 63 - 1

def getDiff (feework : Feework) : Int :=
  if feework.mcost = 0 ∨ feework.limit = 0 ∨ feework.work = 0 ∨ feework.hash = 0 then 0
  else if maxDiff < feework.exactDiff then MIN_TX_FEE
  else feework.exactDiff

/-- The fields that `GetDiff` needs are there. -/
structure Complete (feework : Feework) : Prop where
  mcost : feework.mcost ≠ 0
  limit : feework.limit ≠ 0
  work : feework.work ≠ 0
  hash : feework.hash ≠ 0

theorem Complete.getDiff_eq {feework : Feework} (h : Complete feework) :
    feework.getDiff = if maxDiff < feework.exactDiff then MIN_TX_FEE else feework.exactDiff := by
  rw [getDiff, if_neg]
  simp only [h.mcost, h.limit, h.work, h.hash, or_self, not_false_eq_true]

/-- The value of a hash of one at the memory cost of one, as a natural number. -/
def unitDiff : Nat := TX_FEEWORK_LIMIT.toNat * MIN_TX_FEE.toNat

theorem exactDiff_eq (feework : Feework) :
    feework.exactDiff = (unitDiff / feework.hash.toNat * feework.mcost / FEELESS_MCOST_MIN : Nat) := by
  have hunit : (TX_FEEWORK_LIMIT.toNat : Int) * MIN_TX_FEE = (unitDiff : Nat) := rfl
  rw [exactDiff, hunit]
  push_cast
  rfl

theorem exactDiff_mono {f g : Feework} (hf : Complete f) (hhash : f.hash ≤ g.hash) (hmcost : g.mcost ≤ f.mcost) :
    g.exactDiff ≤ f.exactDiff := by
  have hpos : 0 < f.hash.toNat := Nat.pos_of_ne_zero fun hzero => hf.hash (UInt64.toNat_inj.1 hzero)
  rw [exactDiff_eq, exactDiff_eq, Int.ofNat_le]
  apply Nat.div_le_div_right
  exact Nat.mul_le_mul (Nat.div_le_div_left (UInt64.le_iff_toNat_le.1 hhash) hpos) hmcost

/-- More work is never valued less, unless its value does not fit 63 bits while that of the other does and is
above the minimum fee. -/
theorem getDiff_le_iff {f g : Feework} (hf : Complete f) (hg : Complete g) (hhash : f.hash ≤ g.hash)
    (hmcost : g.mcost ≤ f.mcost) :
    g.getDiff ≤ f.getDiff ↔ f.exactDiff ≤ maxDiff ∨ maxDiff < g.exactDiff ∨ g.exactDiff ≤ MIN_TX_FEE := by
  have hmono := exactDiff_mono hf hhash hmcost
  rw [hf.getDiff_eq, hg.getDiff_eq]
  by_cases hclamp : maxDiff < f.exactDiff
  · rw [if_pos hclamp]
    split
    · next hboth => exact ⟨fun _ => .inr (.inl hboth), fun _ => Int.le_refl _⟩
    · next hfits =>
      constructor
      · intro hle
        exact .inr (.inr hle)
      · rintro (hle | hlt | hle)
        · exact absurd hclamp (Int.not_lt.2 hle)
        · exact absurd hlt hfits
        · exact hle
  · have hfits : ¬ maxDiff < g.exactDiff := fun hlt => hclamp (Int.lt_of_lt_of_le hlt hmono)
    rw [if_neg hclamp, if_neg hfits]
    exact ⟨fun _ => .inl (Int.not_lt.1 hclamp), fun _ => hmono⟩

/-- Feework of the least memory cost with a hash of three is worth more than with a hash of four. -/
theorem getDiff_le_iff_three : getDiff { mcost := 256, limit := 1, work := 1, hash := 4 } ≤
      getDiff { mcost := 256, limit := 1, work := 1, hash := 3 } := by
  apply (getDiff_le_iff ⟨by decide, by decide, by decide, by decide⟩
    ⟨by decide, by decide, by decide, by decide⟩ (by decide) (by decide)).2
  left
  decide

/-- With a hash of one the value does not fit, and the feework is worth the minimum fee, less than with a hash
of three. -/
theorem getDiff_one_lt_three : Complete { mcost := 256, limit := 1, work := 1, hash := 1 } ∧
      Complete { mcost := 256, limit := 1, work := 1, hash := 3 } ∧
      getDiff { mcost := 256, limit := 1, work := 1, hash := 1 } = 10000 ∧
      getDiff { mcost := 256, limit := 1, work := 1, hash := 3 } = 6567749456581970000 := by
  refine ⟨⟨by decide, by decide, by decide, by decide⟩, ⟨by decide, by decide, by decide, by decide⟩, ?_, ?_⟩
  · decide
  · decide

end Feework

end Stealth

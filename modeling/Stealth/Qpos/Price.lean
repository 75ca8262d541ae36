import Stealth.Chain.CheckBlock
import Stealth.Qpos.BitLength

/-! The price of a staker, which counts the bits of the number of qualified stakers. -/

namespace Stealth

theorem bitLength_mono {v w : UInt32} (hv : 0 < v.toNat) (h : v.toNat ≤ w.toNat) :
    (bitLength v).toNat ≤ (bitLength w).toNat := by
  obtain ⟨b, hb, hvge, hvlt⟩ := bitLength_spec hv
  obtain ⟨c, hc, hwge, hwlt⟩ := bitLength_spec (hv.trans_le h)
  have hbc : b ≤ c := Nat.lt_succ_iff.1
    ((Nat.pow_lt_pow_iff_right (by decide)).1 (hvge.trans_lt (h.trans_lt hwlt)))
  rw [hb, hc]
  rcases hbc.lt_or_eq with hlt | rfl
  · split <;> omega
  · -- both have the same bits, and a leading byte that is too high stays so
    have hmis : Misread v.toNat → Misread w.toNat := by
      rintro ⟨k, hk, hge, hlt⟩
      refine ⟨k, hk, hge.trans h, hwlt.trans_le ?_⟩
      have hpow : b < k + 5 := by
        rw [show 32 * 2 ^ k = 2 ^ (k + 5) by rw [Nat.pow_add, Nat.mul_comm]] at hlt
        exact (Nat.pow_lt_pow_iff_right (by decide)).1 (hvge.trans_lt hlt)
      calc 2 ^ (b + 1) ≤ 2 ^ (k + 5) := Nat.pow_le_pow_right (by decide) hpow
        _ = 32 * 2 ^ k := by rw [Nat.pow_add, Nat.mul_comm]
    by_cases hm : Misread v.toNat
    · rw [if_pos hm, if_pos (hmis hm)]
    · rw [if_neg hm]
      omega

def tier1 (fTestNet : Bool) : Nat := if fTestNet then 22 else 11
def tier2 (fTestNet : Bool) : Nat := if fTestNet then 64 else 32

/-- The last staker of a tier. From the second tier on, each is twice as wide as the one before. -/
def lastOfTier (fTestNet : Bool) : Nat → Nat
  | 0 => tier1 fTestNet
  | t + 1 => lastOfTier fTestNet t + tier2 fTestNet * 2 ^ t

def firstOfTier (fTestNet : Bool) : Nat → Nat
  | 0 => 1
  | t + 1 => lastOfTier fTestNet t + 1

def kTier (fTestNet : Bool) : UInt32 := if fTestNet then 64 - 22 else 32 - 11

theorem lastOfTier_add (fTestNet : Bool) (t : Nat) :
    lastOfTier fTestNet t + (kTier fTestNet).toNat = tier2 fTestNet * 2 ^ t := by
  induction t with
  | zero => cases fTestNet <;> rfl
  | succ t ih =>
    rw [lastOfTier, Nat.pow_succ, ← Nat.mul_assoc]
    omega

def priceFactor (fTestNet : Bool) (N : UInt32) : Int := (bitLength (N + kTier fTestNet)).toNat - 1

def firstFactor (fTestNet : Bool) : Nat := if fTestNet then 5 else 4

theorem tier2_eq (fTestNet : Bool) : tier2 fTestNet = 2 ^ (firstFactor fTestNet + 1) := by
  cases fTestNet <;> rfl

variable {fTestNet : Bool} {N : UInt32}

theorem toNat_add_kTier (hN : N.toNat < 2 ^ 31) :
    (N + kTier fTestNet).toNat = N.toNat + (kTier fTestNet).toNat := by
  have hk : (kTier fTestNet).toNat ≤ 42 := by cases fTestNet <;> decide
  rw [UInt32.toNat_add, Nat.mod_eq_of_lt (by omega)]

theorem toNat_kTier_pos (fTestNet : Bool) : 2 ^ firstFactor fTestNet ≤ (kTier fTestNet).toNat := by
  cases fTestNet <;> decide

theorem bits_of_tier {t n : Nat} (hfirst : firstOfTier fTestNet t ≤ n + 1)
    (hlast : n + 1 ≤ lastOfTier fTestNet t) : 2 ^ (firstFactor fTestNet + t) ≤ n + (kTier fTestNet).toNat ∧
      n + (kTier fTestNet).toNat < 2 ^ (firstFactor fTestNet + t + 1) := by
  have hend := lastOfTier_add fTestNet t
  rw [tier2_eq, ← Nat.pow_add, Nat.add_right_comm] at hend
  refine ⟨?_, by omega⟩
  cases t with
  | zero => exact (toNat_kTier_pos fTestNet).trans (Nat.le_add_left _ _)
  | succ t =>
    have hstart := lastOfTier_add fTestNet t
    rw [tier2_eq, ← Nat.pow_add, Nat.add_right_comm] at hstart
    rw [firstOfTier] at hfirst
    rw [← Nat.add_assoc]
    omega

variable {nSupply nSupply' : Int} {N' : UInt32} {t : Nat} {nFork : Fork} {fPurchase : Bool}

theorem priceFactor_eq (hN : N.toNat < 2 ^ 31) (hfirst : firstOfTier fTestNet t ≤ N.toNat + 1)
    (hlast : N.toNat + 1 ≤ lastOfTier fTestNet t) : priceFactor fTestNet N =
      firstFactor fTestNet + t + if Misread (N.toNat + (kTier fTestNet).toNat) then 1 else 0 := by
  obtain ⟨hge, hlt⟩ := bits_of_tier hfirst hlast
  have hpos : 0 < (N + kTier fTestNet).toNat := by
    rw [toNat_add_kTier hN]
    exact (Nat.two_pow_pos _).trans_le hge
  obtain ⟨b, hb, hbge, hblt⟩ := bitLength_spec hpos
  rw [toNat_add_kTier hN] at hb hbge hblt
  have hbits : b = firstFactor fTestNet + t := by
    have hle := (Nat.pow_lt_pow_iff_right (by decide : 1 < 2)).1 (hge.trans_lt hblt)
    have hle' := (Nat.pow_lt_pow_iff_right (by decide : 1 < 2)).1 (hbge.trans_lt hlt)
    omega
  rw [priceFactor, hb, hbits]
  push_cast
  split <;> omega

def kScale (fTestNet : Bool) : Int := if fTestNet then 4000 else 12000
def kIncentive (fTestNet : Bool) : Int := if fTestNet then 200 else 64

def INVERSE_WAIT_INCREASE : Int := 3153600

def waitSupply (fPurchase : Bool) (nSupply : Int) : Int :=
  if fPurchase then nSupply + nSupply.tdiv INVERSE_WAIT_INCREASE else nSupply

def int64 (n : Int) : Option Int := if -2 ^ 63 ≤ n ∧ n < 2 ^ 63 then some n else none

def getStakerPriceInt64 (fTestNet : Bool) (N : UInt32) (nSupply : Int) (nFork : Fork) (fPurchase : Bool) :
    Option Int := do
  let blen : Int := (bitLength (N + kTier fTestNet)).toNat
  let nSupply ← int64 (waitSupply fPurchase nSupply)
  let nIncentive ← int64 (kIncentive fTestNet * N.toNat)
  if .purchase3 ≤ nFork then
    let nTerm ← int64 ((nSupply.tdiv COIN).tdiv (kScale fTestNet) * (blen - 1))
    let nSum ← int64 (nTerm + nIncentive)
    int64 (COIN * nSum)
  else
    let nTerm ← int64 (nSupply.tdiv (kScale fTestNet) * (blen - 1))
    int64 (nTerm + nIncentive)

def supplyTerm (fTestNet : Bool) (nSupply : Int) (nFork : Fork) : Int :=
  if .purchase3 ≤ nFork then (nSupply.tdiv COIN).tdiv (kScale fTestNet) else nSupply.tdiv (kScale fTestNet)

def priceUnit (nFork : Fork) : Int := if .purchase3 ≤ nFork then COIN else 1

theorem getStakerPrice_eq (fTestNet : Bool) (N : UInt32) (nSupply : Int) (nFork : Fork) :
    getStakerPrice fTestNet N nSupply nFork = priceUnit nFork *
      (supplyTerm fTestNet nSupply nFork * priceFactor fTestNet N + kIncentive fTestNet * N.toNat) := by
  rw [getStakerPrice, priceUnit, supplyTerm]
  split
  · rfl
  · rw [Int.one_mul]
    rfl

theorem supplyTerm_mono (h0 : 0 ≤ nSupply) (h : nSupply ≤ nSupply') :
    0 ≤ supplyTerm fTestNet nSupply nFork ∧
      supplyTerm fTestNet nSupply nFork ≤ supplyTerm fTestNet nSupply' nFork := by
  have hk : 0 < kScale fTestNet := by cases fTestNet <;> decide
  have hc : 0 < COIN := by decide
  have h0' := h0.trans h
  rw [supplyTerm, supplyTerm]
  split
  · rw [Int.tdiv_eq_ediv_of_nonneg h0, Int.tdiv_eq_ediv_of_nonneg h0',
      Int.tdiv_eq_ediv_of_nonneg (Int.ediv_nonneg h0 hc.le),
      Int.tdiv_eq_ediv_of_nonneg (Int.ediv_nonneg h0' hc.le)]
    exact ⟨Int.ediv_nonneg (Int.ediv_nonneg h0 hc.le) hk.le,
      Int.ediv_le_ediv hk (Int.ediv_le_ediv hc h)⟩
  · rw [Int.tdiv_eq_ediv_of_nonneg h0, Int.tdiv_eq_ediv_of_nonneg h0']
    exact ⟨Int.ediv_nonneg h0 hk.le, Int.ediv_le_ediv hk h⟩

theorem priceFactor_mono (hN' : N'.toNat < 2 ^ 31) (h : N.toNat ≤ N'.toNat) :
    0 ≤ priceFactor fTestNet N ∧ priceFactor fTestNet N ≤ priceFactor fTestNet N' ∧
      priceFactor fTestNet N' ≤ 32 := by
  have hpos : ∀ M : UInt32, M.toNat < 2 ^ 31 → 0 < (M + kTier fTestNet).toNat := by
    intro M hM
    rw [toNat_add_kTier hM]
    exact ((Nat.two_pow_pos _).trans_le (toNat_kTier_pos fTestNet)).trans_le (Nat.le_add_left _ _)
  have hN := h.trans_lt hN'
  have hmono : (bitLength (N + kTier fTestNet)).toNat ≤ (bitLength (N' + kTier fTestNet)).toNat := by
    apply bitLength_mono (hpos N hN)
    rw [toNat_add_kTier hN, toNat_add_kTier hN']
    omega
  obtain ⟨b, hb, -, -⟩ := bitLength_spec (hpos N hN)
  obtain ⟨c, hc, hcge, -⟩ := bitLength_spec (hpos N' hN')
  have hc32 : c < 32 := (Nat.pow_lt_pow_iff_right (by decide)).1 (hcge.trans_lt (UInt32.toNat_lt _))
  rw [priceFactor, priceFactor]
  refine ⟨by omega, by omega, ?_⟩
  rw [hc]
  push_cast
  split <;> omega

theorem getStakerPrice_mono (hN' : N'.toNat < 2 ^ 31) (hN : N.toNat ≤ N'.toNat) (h0 : 0 ≤ nSupply)
    (h : nSupply ≤ nSupply') :
    getStakerPrice fTestNet N nSupply nFork ≤ getStakerPrice fTestNet N' nSupply' nFork := by
  obtain ⟨hfactor0, hfactor, -⟩ := @priceFactor_mono fTestNet N N' hN' hN
  obtain ⟨hterm0, hterm⟩ := @supplyTerm_mono fTestNet nSupply nSupply' nFork h0 h
  have hunit : 0 ≤ priceUnit nFork := by
    rw [priceUnit]
    split <;> decide
  have hk : 0 ≤ kIncentive fTestNet := by cases fTestNet <;> decide
  have hcount : (N.toNat : Int) ≤ N'.toNat := Int.ofNat_le.2 hN
  rw [getStakerPrice_eq, getStakerPrice_eq]
  apply Int.mul_le_mul_of_nonneg_left _ hunit
  exact Int.add_le_add (Int.mul_le_mul hterm hfactor hfactor0 (hterm0.trans hterm))
    (Int.mul_le_mul_of_nonneg_left hcount hk)

theorem int64_eq_some {n : Int} (h0 : 0 ≤ n) (h : n < 2 ^ 63) : int64 n = some n :=
  if_pos ⟨by omega, h⟩

theorem waitSupply_mono (h0 : 0 ≤ nSupply) (h : nSupply ≤ nSupply') (hmax : nSupply' ≤ MAX_MONEY) :
    0 ≤ waitSupply fPurchase nSupply ∧ waitSupply fPurchase nSupply ≤ waitSupply fPurchase nSupply' ∧
      waitSupply fPurchase nSupply' ≤ 2 * MAX_MONEY := by
  rw [waitSupply, waitSupply, MAX_MONEY, COIN] at *
  split
  · rw [Int.tdiv_eq_ediv_of_nonneg h0, Int.tdiv_eq_ediv_of_nonneg (h0.trans h), INVERSE_WAIT_INCREASE]
    omega
  · omega

theorem getStakerPriceInt64_eq (hN : N.toNat < 2 ^ 31) (h0 : 0 ≤ nSupply) (hmax : nSupply ≤ MAX_MONEY) :
    getStakerPriceInt64 fTestNet N nSupply nFork fPurchase =
      some (getStakerPrice fTestNet N (waitSupply fPurchase nSupply) nFork) := by
  obtain ⟨hsupply0, -, hsupply⟩ := @waitSupply_mono _ _ fPurchase h0 le_rfl hmax
  obtain ⟨hfactor0, -, hfactor⟩ := @priceFactor_mono fTestNet N N hN le_rfl
  obtain ⟨hterm0, hterm⟩ := @supplyTerm_mono fTestNet _ _ nFork hsupply0 hsupply
  have hcount : 0 ≤ kIncentive fTestNet * N.toNat ∧ kIncentive fTestNet * N.toNat ≤ 200 * 2 ^ 31 := by
    cases fTestNet <;> simp only [kIncentive, if_true, Bool.false_eq_true, if_false] <;> omega
  have hproduct : 0 ≤ supplyTerm fTestNet (waitSupply fPurchase nSupply) nFork * priceFactor fTestNet N ∧
      supplyTerm fTestNet (waitSupply fPurchase nSupply) nFork * priceFactor fTestNet N ≤
        supplyTerm fTestNet (2 * MAX_MONEY) nFork * 32 := by
    exact ⟨Int.mul_nonneg hterm0 hfactor0, Int.mul_le_mul hterm hfactor hfactor0 (hterm0.trans hterm)⟩
  have hS := int64_eq_some hsupply0 (by rw [MAX_MONEY, COIN] at hsupply; omega)
  have hI := int64_eq_some hcount.1 (by omega)
  rw [getStakerPrice_eq, getStakerPriceInt64]
  by_cases hfork : Fork.purchase3 ≤ nFork
  · have hbound : supplyTerm fTestNet (2 * MAX_MONEY) nFork ≤ 21650 := by
      rw [supplyTerm, if_pos hfork]
      cases fTestNet <;> decide
    simp only [supplyTerm, priceFactor, priceUnit, if_pos hfork] at hproduct hbound ⊢
    have hT := int64_eq_some hproduct.1 (by omega)
    have hSum := int64_eq_some (Int.add_nonneg hproduct.1 hcount.1) (by omega)
    have hP := int64_eq_some (Int.mul_nonneg (by decide : 0 ≤ COIN) (Int.add_nonneg hproduct.1 hcount.1))
      (by change 1000000 * (_ + _) < _; omega)
    simp only [hS, hI, hT, hSum, hP, Option.bind_eq_bind, Option.bind_some]
  · have hbound : supplyTerm fTestNet (2 * MAX_MONEY) nFork ≤ 21650000000 := by
      rw [supplyTerm, if_neg hfork]
      cases fTestNet <;> decide
    simp only [supplyTerm, priceFactor, priceUnit, if_neg hfork, Int.one_mul] at hproduct hbound ⊢
    have hT := int64_eq_some hproduct.1 (by omega)
    have hSum := int64_eq_some (Int.add_nonneg hproduct.1 hcount.1) (by omega)
    simp only [hS, hI, hT, hSum, Option.bind_eq_bind, Option.bind_some]

/-- For any number of qualified stakers below `2 ^ 31`, any supply in the money range, any fork and both
networks, the price is computed without overflow and never falls. The factor of the supply is the one of the
tier of the next staker exactly if the shifted number of stakers is not one of those that the table reads
wrong. -/
theorem getStakerPrice_tiers {N N' : UInt32} (fTestNet fPurchase : Bool) (nFork : Fork)
    (hN' : N'.toNat < 2 ^ 31) (hN : N.toNat ≤ N'.toNat) (h0 : 0 ≤ nSupply) (h : nSupply ≤ nSupply')
    (hmax : nSupply' ≤ MAX_MONEY) (hfirst : firstOfTier fTestNet t ≤ N.toNat + 1)
    (hlast : N.toNat + 1 ≤ lastOfTier fTestNet t) :
    (∃ nPrice nPrice', getStakerPriceInt64 fTestNet N nSupply nFork fPurchase = some nPrice ∧
      getStakerPriceInt64 fTestNet N' nSupply' nFork fPurchase = some nPrice' ∧ nPrice ≤ nPrice' ∧
      nPrice = priceUnit nFork * (supplyTerm fTestNet (waitSupply fPurchase nSupply) nFork *
        priceFactor fTestNet N + kIncentive fTestNet * N.toNat)) ∧
    (priceFactor fTestNet N = firstFactor fTestNet + t ↔
      ¬ Misread (N.toNat + (kTier fTestNet).toNat)) := by
  have hlow := hN.trans_lt hN'
  obtain ⟨hwait0, hwait, -⟩ := @waitSupply_mono _ _ fPurchase h0 h hmax
  refine ⟨⟨_, _, getStakerPriceInt64_eq hlow h0 (h.trans hmax),
    getStakerPriceInt64_eq hN' (h0.trans h) hmax, getStakerPrice_mono hN' hN hwait0 hwait,
    getStakerPrice_eq _ _ _ _⟩, ?_⟩
  rw [priceFactor_eq hlow hfirst hlast]
  split
  · next hmis => exact iff_of_false (by omega) (not_not_intro hmis)
  · next hmis => exact iff_of_true (by omega) hmis

/-- Staker 12 is the first of the second tier. -/
theorem getStakerPrice_tiers_second : priceFactor false 11 = firstFactor false + 1 :=
  (@getStakerPrice_tiers 0 0 1 11 11 false false .purchase3 (by decide) le_rfl le_rfl le_rfl (by decide)
    (by decide) (by decide)).2.2 (by decide)

/-- Staker 5 of the first tier has the factor of the second one. -/
theorem first_tier_ends_early : firstOfTier false 0 = 1 ∧ lastOfTier false 0 = 11 ∧
    priceFactor false 3 = 4 ∧ priceFactor false 4 = 5 ∧
    getStakerPriceInt64 false 3 43300000000000 .purchase3 false = some 14624000000 ∧
    getStakerPriceInt64 false 4 43300000000000 .purchase3 false = some 18296000000 := by
  decide +kernel

end Stealth

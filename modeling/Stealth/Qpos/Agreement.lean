import Stealth.Qpos.Dock
import Stealth.Qpos.Split

/-!
When a block update preceded by a time advance agrees with the block update alone.
-/

namespace Stealth.QPRegistry

open Loop

variable {env : QPEnv} {r r' : QPRegistry} {pindex : CBlockIndex} {x y : QPRegistry × Nat}
  {a b : Except QPRegistry (QPRegistry × Nat)}

/-- The registry and the return value with which the advance loop ends. -/
def outcome : Except QPRegistry (QPRegistry × Nat) → QPRegistry × Bool
  | .error r => (r, false)
  | .ok x => (x.1, true)

/-- The iterations of the advance loop in a call that starts with a queue. -/
def walk (env : QPEnv) (pindex : CBlockIndex) (k : Nat) (r : QPRegistry) :
    Except QPRegistry (QPRegistry × Nat) :=
  iterateE (advanceSlot env pindex) k (r, 0)

def slotsTo (r : QPRegistry) (nTime : UInt32) : Nat :=
  slotsPassed r.queue.getCurrentSlotEnd nTime

theorem advanceTime_eq_walk (hOn : OnSlot (r, 0)) (nTime : UInt32)
    (hfork : Fork.qpos ≤ getFork env.fTestNet (pindex.nHeight + 1)) :
    r.advanceTime env nTime pindex = outcome (walk env pindex (r.slotsTo nTime) r) := by
  have hne : r.queue.isEmpty = false := by
    have hlt : r.queue.nCurrentSlot < r.queue.vStakerIDs.length := hOn
    simp only [QPQueue.isEmpty, List.isEmpty_eq_false_iff]
    exact List.ne_nil_of_length_pos (by omega)
  simp only [advanceTime, if_pos hfork, startQueue, hne, Bool.false_eq_true, if_false,
    advanceLoop_eq_iterateE env nTime pindex hOn, walk, slotsTo]
  cases iterateE (advanceSlot env pindex) (slotsPassed r.queue.getCurrentSlotEnd nTime) (r, 0) <;> rfl

theorem queueInv_iterateE (pindex : CBlockIndex) : ∀ (k : Nat) {x : QPRegistry × Nat},
    QueueInv env x.1 → (∀ y, iterateE (advanceSlot env pindex) k x = .ok y → QueueInv env y.1) ∧
      (∀ r, iterateE (advanceSlot env pindex) k x = .error r → QueueInv env r)
  | 0, x, hi => ⟨fun y h => by cases h; exact hi, fun r h => by cases h⟩
  | k + 1, x, hi => by
    obtain ⟨hok, herr⟩ := hi.advanceSlot pindex
    simp only [iterateE]
    cases hx : advanceSlot env pindex x with
    | error e => exact ⟨fun y h => (by cases h), fun r h => by cases h; exact herr e hx⟩
    | ok x' => exact queueInv_iterateE pindex k (hok x' hx)

/-- The same walk from a registry that differs only in mode and snapshot bookkeeping. -/
theorem walk_sameState (k : Nat) (h : SameState r r') :
    ResultRel SameState (Apart 0) (walk env pindex k r) (walk env pindex k r') :=
  apart_iterateE k ⟨h, rfl⟩ fun _ _ _ _ => rfl

theorem enabledIDs_nil_passSlot (env : QPEnv) (pindex : CBlockIndex) (n : Nat)
    (hnil : r.enabledIDs = []) : (r.passSlot env pindex n).enabledIDs = [] := by
  rw [List.eq_nil_iff_forall_not_mem]
  intro id hid
  have := (enabledIDs_passSlot env pindex n r).1 id hid
  rw [hnil] at this
  cases this

theorem enabledIDs_nil_advanceSlot
    (hnil : x.1.enabledIDs = []) (h : advanceSlot env pindex x = .ok y) : y.1.enabledIDs = [] := by
  rw [enabledIDs_congr (advanceSlot_mapStakers h)]
  exact enabledIDs_nil_passSlot env pindex x.2 hnil

theorem advanceSlot_last_nil (env : QPEnv) (pindex : CBlockIndex)
    (hlast : x.1.queue.vStakerIDs.length ≤ x.1.queue.nCurrentSlot + 1) (hnil : x.1.enabledIDs = []) :
    advanceSlot env pindex x =
      .error ((x.1.passSlot env pindex x.2).endRound pindex.nMoneySupply) := by
  cases h : advanceSlot env pindex x with
  | error r => rw [(advanceSlot_error h).2.2]
  | ok y =>
    exfalso
    rcases advanceSlot_ok h with ⟨q, hq, -⟩ | ⟨r, -, hn, rfl⟩
    · rw [passSlot_queue] at hq
      have := (incrementSlot_eq_some hq).1
      omega
    · obtain ⟨-, -, hperm, hne, -⟩ := newQueue_spec hn
      obtain ⟨id, hid⟩ := List.exists_mem_of_ne_nil _ hne
      have hpass : id ∈ (x.1.passSlot env pindex x.2).enabledIDs := hperm.mem_iff.1 hid
      rw [enabledIDs_nil_passSlot env pindex x.2 hnil] at hpass
      cases hpass

theorem advanceSlot_inner_frame (hx : x.1.queue.nCurrentSlot + 1 < x.1.queue.vStakerIDs.length)
    (h : advanceSlot env pindex x = .ok y) :
    y.1.mapBalances = x.1.mapBalances ∧ y.1.mapActive = x.1.mapActive := by
  rw [advanceSlot_inner env pindex hx] at h
  cases h
  obtain ⟨ms, pr, br, fp, m, hpass⟩ := passSlot_frame env pindex x.2 x.1
  obtain ⟨f, n, hpow⟩ := checkPower_frame env (((x.1.passSlot env pindex x.2).setQueue
    { x.1.queue with nCurrentSlot := x.1.queue.nCurrentSlot + 1 }).setProduced false)
  rw [hpow, hpass]
  exact ⟨rfl, rfl⟩

theorem walk_to_last (env : QPEnv) (pindex : CBlockIndex) : ∀ (k : Nat) {x : QPRegistry × Nat},
    x.1.queue.nCurrentSlot + k < x.1.queue.vStakerIDs.length → x.1.enabledIDs = [] →
      ∃ y, iterateE (advanceSlot env pindex) k x = .ok y ∧ y.1.enabledIDs = [] ∧
        y.1.mapBalances = x.1.mapBalances ∧ y.1.mapActive = x.1.mapActive ∧
        y.1.fCurrentBlockWasProduced = (decide (k = 0) && x.1.fCurrentBlockWasProduced)
  | 0, x, _, hnil => ⟨x, rfl, hnil, rfl, rfl, by simp⟩
  | k + 1, x, hx, hnil => by
    obtain ⟨z, hz, -, hids, hcur⟩ := iterateE_inner env pindex 1 x (by omega)
    have hz : advanceSlot env pindex x = .ok z := by
      obtain ⟨z', hz', hrest⟩ := iterateE_succ_ok hz
      cases hrest
      exact hz'
    obtain ⟨hbal, hact⟩ := advanceSlot_inner_frame (by omega) hz
    obtain ⟨y, hy, hyen, hyb, hya, hyp⟩ := walk_to_last env pindex k (x := z) (by rw [hids, hcur]; omega)
      (enabledIDs_nil_advanceSlot hnil hz)
    refine ⟨y, by simp only [iterateE, hz, hy], hyen, hyb.trans hbal, hya.trans hact, ?_⟩
    rw [hyp, advanceSlot_produced hz]
    simp

section
variable {env : QPEnv} {pindex : CBlockIndex} {r : QPRegistry}

/-- The registry on the last slot of a queue that cannot be renewed. -/
structure LastSlot (r z : QPRegistry) : Prop where
  ids : z.queue.vStakerIDs = r.queue.vStakerIDs
  slot : z.queue.nCurrentSlot + 1 = z.queue.vStakerIDs.length
  enabled : z.enabledIDs = []
  balances : z.mapBalances = r.mapBalances
  active : z.mapActive = r.mapActive
  produced : z.fCurrentBlockWasProduced = (decide (r.slotsLeft = 1) && r.fCurrentBlockWasProduced)

theorem walk_eq_error (pindex : CBlockIndex) (hOn : OnSlot (r, 0)) (hi : QueueInv env r) (hnil : r.enabledIDs = []) :
    ∃ z, LastSlot r z ∧ QueueInv env z ∧
      z.queue.getCurrentSlotEnd =
        r.queue.getCurrentSlotEnd + QP_TARGET_SPACING * UInt32.ofNat (r.slotsLeft - 1) ∧
      ∀ k, r.slotsLeft ≤ k →
        walk env pindex k r = .error ((z.passSlot env pindex 0).endRound pindex.nMoneySupply) := by
  have hlt : r.queue.nCurrentSlot < r.queue.vStakerIDs.length := hOn
  have hlast : r.queue.nCurrentSlot + (r.slotsLeft - 1) < r.queue.vStakerIDs.length := by
    unfold slotsLeft
    omega
  obtain ⟨y, hy, hn, hids, hcur⟩ := iterateE_inner env pindex (r.slotsLeft - 1) (r, 0) hlast
  obtain ⟨y', hy', hen, hbal, hact, hprod⟩ :=
    walk_to_last env pindex (r.slotsLeft - 1) (x := (r, 0)) hlast hnil
  rw [hy] at hy'
  cases hy'
  have hend : y.1.queue.nCurrentSlot + 1 = y.1.queue.vStakerIDs.length := by
    rw [hcur, hids]
    unfold slotsLeft
    dsimp only
    omega
  refine ⟨y.1, ⟨hids, hend, hen, hbal, hact, ?_⟩, (queueInv_iterateE pindex _ hi).1 y hy,
    (iterateE_clock _ hOn hy).2, fun k hk => ?_⟩
  · rw [hprod]
    congr 1
    unfold slotsLeft
    exact decide_eq_decide.2 ⟨fun h => by omega, fun h => by omega⟩
  · have hfail := advanceSlot_last_nil env pindex (Nat.le_of_eq hend.symm) hen
    obtain ⟨j, rfl⟩ : ∃ j, k = r.slotsLeft - 1 + (j + 1) := ⟨k - r.slotsLeft, by
      unfold slotsLeft at hk ⊢
      omega⟩
    rw [walk, iterateE_add_of_ok hy, iterateE, hfail, hn]

/-- A failed renewal leaves the queue as it was, and the next call fails on it again. -/
theorem walk_retry {z : QPRegistry} (hz : LastSlot r z) {k : Nat} (hk : 0 < k) :
    walk env pindex k ((z.passSlot env pindex 0).endRound pindex.nMoneySupply) =
      .error ((((z.passSlot env pindex 0).endRound pindex.nMoneySupply).passSlot env pindex
        0).endRound pindex.nMoneySupply) := by
  set b := (z.passSlot env pindex 0).endRound pindex.nMoneySupply with hb
  have hqueue : b.queue = z.queue := passSlot_queue env pindex 0 z
  have hnil : b.enabledIDs = [] := enabledIDs_nil_passSlot env pindex 0 hz.enabled
  have hfail := advanceSlot_last_nil env pindex (x := (b, 0))
    (by dsimp only; rw [hqueue]; exact Nat.le_of_eq hz.slot.symm) hnil
  obtain ⟨j, rfl⟩ := Nat.exists_eq_add_of_lt hk
  rw [walk, Nat.zero_add, iterateE, hfail]

theorem SameState.eq_of_mode {a b : QPRegistry} (h : SameState a b)
    (hm : a.nHeightExitedReplay = b.nHeightExitedReplay)
    (hs : a.hashBlockLastSnapshot = b.hashBlockLastSnapshot) : a = b := by
  calc a = (a.withMode 0 0).withMode a.nHeightExitedReplay a.hashBlockLastSnapshot := rfl
    _ = (b.withMode 0 0).withMode b.nHeightExitedReplay b.hashBlockLastSnapshot := by rw [h, hm, hs]
    _ = b := rfl

theorem sameState_endRound_iff (z : QPRegistry) (n : Int) :
    SameState ((z.endRound n).endRound n) (z.endRound n) ↔ z.DockStable n := by
  rw [← endRound_endRound_iff]
  exact ⟨fun h => h.eq_of_mode rfl rfl, fun h => by rw [h]; exact .refl _⟩

theorem DockStable.congr {a b : QPRegistry} (hbal : b.mapBalances = a.mapBalances)
    (hact : b.mapActive = a.mapActive) (n : Int) : b.DockStable n ↔ a.DockStable n := by
  simp only [DockStable, IsInactive, hbal, hact]

/-- The second failure leaves the same state exactly when the last slot is not missed again and
docking is stable. -/
theorem sameState_retry_iff {z : QPRegistry} (hz : LastSlot r z) (hi : QueueInv env z) :
    SameState ((((z.passSlot env pindex 0).endRound pindex.nMoneySupply).passSlot env pindex
        0).endRound pindex.nMoneySupply) ((z.passSlot env pindex 0).endRound pindex.nMoneySupply) ↔
      (getFork env.fTestNet pindex.nHeight < .qpos ∨
        r.slotsLeft = 1 ∧ r.fCurrentBlockWasProduced = true) ∧ r.DockStable pindex.nMoneySupply := by
  set b := (z.passSlot env pindex 0).endRound pindex.nMoneySupply with hb
  have hprod : (r.slotsLeft = 1 ∧ r.fCurrentBlockWasProduced = true) ↔
      z.fCurrentBlockWasProduced = true := by rw [hz.produced]; simp
  have hstable : (z.passSlot env pindex 0).DockStable pindex.nMoneySupply ↔
      r.DockStable pindex.nMoneySupply := by
    obtain ⟨ms, pr, br, fp, m, hpass⟩ := passSlot_frame env pindex 0 z
    exact DockStable.congr (by rw [hpass]; exact hz.balances) (by rw [hpass]; exact hz.active) _
  have hbp : b.fCurrentBlockWasProduced = z.fCurrentBlockWasProduced := by
    obtain ⟨ms, pr, br, fp, m, hpass⟩ := passSlot_frame env pindex 0 z
    rw [hb, hpass]
    rfl
  rw [hprod]
  cases hp : z.fCurrentBlockWasProduced with
  | true =>
    have hsame : b.passSlot env pindex 0 = b := by simp [passSlot, hbp, hp]
    rw [hsame, hb, sameState_endRound_iff, hstable]
    simp
  | false =>
    by_cases hfork : getFork env.fTestNet pindex.nHeight < .qpos
    · have hcount : countsMiss (getFork env.fTestNet pindex.nHeight) 0 = false := by
        simp [countsMiss, Fork.not_le.2 hfork]
      have hexit : SameState (b.endRound pindex.nMoneySupply)
          ((b.passSlot env pindex 0).endRound pindex.nMoneySupply) := by
        simp only [passSlot, hbp, hp, hcount, Bool.false_eq_true, if_false]
        rfl
      have hiff : SameState ((b.passSlot env pindex 0).endRound pindex.nMoneySupply) b ↔
          SameState (b.endRound pindex.nMoneySupply) b :=
        ⟨fun h => hexit.trans h, fun h => hexit.symm.trans h⟩
      rw [hiff, hb, sameState_endRound_iff, hstable]
      simp [hfork]
    · -- the slot counts as missed once more
      have hcount : countsMiss (getFork env.fTestNet pindex.nHeight) 0 = true := by
        simp [countsMiss, Fork.not_lt.1 hfork]
      have hib : QueueInv env b := (hi.passSlot pindex 0).endRound _
      have hqueue : b.queue = z.queue := passSlot_queue env pindex 0 z
      have hserve := hib.serves_current (by rw [hqueue, ← hz.slot]; omega) (hbp.trans hp)
      obtain ⟨s, s', hs, hs', hone⟩ := passSlot_current hserve (hbp.trans hp) hcount
      have hdiff : DiffMissed ((b.passSlot env pindex 0).endRound pindex.nMoneySupply) b :=
        ⟨_, s', s, hs', hs, by rw [hone]; exact (add_ofNat_ne (d := 1) (by omega) (by omega)).symm⟩
      simp [hdiff.not_sameState, hfork]

end

/-- What makes an advance to `t₁` and then to `t` end as the advance to `t` does: the first call stays
in the queue in force, or it fails to renew the queue and failing again changes nothing, or the
second call passes only slots that would count in a single call too. -/
def WalkSafe (env : QPEnv) (pindex : CBlockIndex) (t₁ t : UInt32) (r : QPRegistry) : Prop :=
  r.slotsTo t₁ < r.slotsLeft ∨
    (r.enabledIDs = [] ∧
      (getFork env.fTestNet pindex.nHeight < .qpos ∨
        r.slotsLeft = 1 ∧ r.fCurrentBlockWasProduced = true) ∧
      r.DockStable pindex.nMoneySupply) ∨
    (r.enabledIDs ≠ [] ∧
      (getFork env.fTestNet pindex.nHeight < .feeless2 ∨ r.slotsTo t = r.slotsTo t₁ ∨
        r.slotsTo t ≤ r.slotsLeft + r.enabledAfterQueue env pindex.nHeight))

/-- The two walks end differently: one staker has different misses, or both fail in different
states. -/
def Diverge (a b : Except QPRegistry (QPRegistry × Nat)) : Prop :=
  (∃ x y, a = .ok x ∧ b = .ok y ∧ DiffMissed x.1 y.1) ∨
    ∃ x y, a = .error x ∧ b = .error y ∧ ¬ SameState x y

section
variable {env : QPEnv} {pindex : CBlockIndex} {r : QPRegistry} {t₁ t : UInt32}

theorem slotsTo_le (ht : t₁ ≤ t) : r.slotsTo t₁ ≤ r.slotsTo t := by
  have := slotsPassed_add ht (r.slotsTo t₁) r.queue.getCurrentSlotEnd le_rfl
  unfold slotsTo at this ⊢
  omega

theorem slotsTo_lt (r : QPRegistry) (t : UInt32) : r.slotsTo t < 2 ^ 32 := slotsPassed_lt _ _

/-- After a first advance, the single walk goes on from where the second one starts. -/
theorem walk_split (hOn : OnSlot (r, 0)) (ht : t₁ ≤ t) (h : walk env pindex (r.slotsTo t₁) r = .ok x) :
    r.slotsTo t = r.slotsTo t₁ + x.1.slotsTo t ∧
      walk env pindex (r.slotsTo t) r = iterateE (advanceSlot env pindex) (x.1.slotsTo t) x := by
  have hclock := (iterateE_clock _ hOn h).2
  have hsum : r.slotsTo t = r.slotsTo t₁ + x.1.slotsTo t := by
    have := slotsPassed_add ht (r.slotsTo t₁) r.queue.getCurrentSlotEnd le_rfl
    unfold slotsTo at hclock this ⊢
    rw [hclock, this]
  refine ⟨hsum, ?_⟩
  rw [hsum, walk, iterateE_add_of_ok h]

theorem walk_inner (env : QPEnv) (pindex : CBlockIndex) (hOn : OnSlot (r, 0)) (ht : t₁ ≤ t) (hlt : r.slotsTo t₁ < r.slotsLeft) :
    ∃ x, walk env pindex (r.slotsTo t₁) r = .ok x ∧
      walk env pindex (r.slotsTo t) r = walk env pindex (x.1.slotsTo t) x.1 := by
  obtain ⟨⟨r₁, n⟩, hx, rfl, -, -⟩ := iterateE_inner env pindex (r.slotsTo t₁) (r, 0)
    (by unfold slotsLeft at hlt; dsimp only; omega)
  exact ⟨(r₁, 0), hx, (walk_split hOn ht hx).2⟩

/-- Past the queue in force, without an enabled staker: the second call fails like the first. -/
theorem walk_outer_nil (pindex : CBlockIndex) (hOn : OnSlot (r, 0)) (hi : QueueInv env r) (ht : t₁ ≤ t)
    (hge : r.slotsLeft ≤ r.slotsTo t₁) (hnil : r.enabledIDs = []) :
    ∃ a b, walk env pindex (r.slotsTo t₁) r = .error b ∧
      walk env pindex (r.slotsTo t) r = .error b ∧ walk env pindex (b.slotsTo t) b = .error a ∧
      (SameState a b ↔
        (getFork env.fTestNet pindex.nHeight < .qpos ∨
          r.slotsLeft = 1 ∧ r.fCurrentBlockWasProduced = true) ∧
        r.DockStable pindex.nMoneySupply) := by
  obtain ⟨z, hz, hiz, hclock, hwalk⟩ := walk_eq_error pindex hOn hi hnil
  refine ⟨_, _, hwalk _ hge, hwalk _ (Nat.le_trans hge (slotsTo_le ht)), walk_retry hz ?_,
    sameState_retry_iff hz hiz⟩
  -- the last slot of the queue ends before the first time already
  have hqueue : ((z.passSlot env pindex 0).endRound pindex.nMoneySupply).queue = z.queue :=
    passSlot_queue env pindex 0 z
  have hlt : r.queue.nCurrentSlot < r.queue.vStakerIDs.length := hOn
  have hsum := slotsPassed_add (UInt32.le_refl t₁) (r.slotsLeft - 1) r.queue.getCurrentSlotEnd
    (show r.slotsLeft - 1 ≤ slotsPassed _ t₁ from Nat.le_trans (Nat.sub_le _ _) hge)
  rw [← hclock] at hsum
  have hpos : 0 < slotsPassed z.queue.getCurrentSlotEnd t₁ := by
    have hleft : 0 < r.slotsLeft := by unfold slotsLeft; omega
    unfold slotsTo at hge
    omega
  have hlate : z.queue.getCurrentSlotEnd < t :=
    UInt32.lt_of_lt_of_le (slotsPassed_pos_iff.1 hpos) ht
  rw [slotsTo, hqueue]
  exact slotsPassed_pos_iff.2 hlate

theorem iterateE_enabled (env : QPEnv) (pindex : CBlockIndex) (hen : r.enabledIDs ≠ []) (k n : Nat) :
    ∃ y, iterateE (advanceSlot env pindex) k (r, n) = .ok y ∧ y.1.enabledIDs ≠ [] :=
  iterateE_total (I := fun x : QPRegistry × Nat => x.1.enabledIDs ≠ [])
    (fun _ h => advanceSlot_total env pindex h) k (r, n) hen

theorem iterateE_produced {k : Nat} (hk : 0 < k)
    (h : iterateE (advanceSlot env pindex) k x = .ok y) : y.1.fCurrentBlockWasProduced = false := by
  obtain ⟨j, rfl⟩ := Nat.exists_eq_add_of_lt hk
  rw [Nat.zero_add] at h
  obtain ⟨z, hz, hrest⟩ := iterateE_succ_ok h
  exact iterateE_invariant (I := fun w : QPRegistry × Nat => w.1.fCurrentBlockWasProduced = false)
    (fun _ _ _ hb => advanceSlot_produced hb) j z y (advanceSlot_produced hz) hrest

/-- Past the queue in force the split makes no difference if the second call passes only slots that
count in a single call too. -/
theorem walk_outer_same (hOn : OnSlot (r, 0)) (hen : r.enabledIDs ≠ []) (ht : t₁ ≤ t)
    (hx : walk env pindex (r.slotsTo t₁) r = .ok x)
    (hsafe : getFork env.fTestNet pindex.nHeight < .feeless2 ∨ r.slotsTo t = r.slotsTo t₁ ∨
      r.slotsTo t ≤ r.slotsLeft + r.enabledAfterQueue env pindex.nHeight) :
    ResultRel SameState (Apart x.2) (walk env pindex (r.slotsTo t) r)
      (walk env pindex (x.1.slotsTo t) x.1) := by
  obtain ⟨hsum, hwalk⟩ := walk_split hOn ht hx
  rw [hwalk]
  refine apart_iterateE _ ⟨.refl _, (Nat.zero_add _).symm⟩ fun j hj z hz => ?_
  by_cases hfork : getFork env.fTestNet pindex.nHeight < .feeless2
  · exact countsMiss_of_lt hfork _ _
  · have hle : r.slotsTo t₁ + j < r.slotsLeft + r.enabledAfterQueue env pindex.nHeight := by
      rcases hsafe with h | h | h
      · exact absurd h hfork
      · omega
      · omega
    have hqpos : Fork.qpos ≤ getFork env.fTestNet pindex.nHeight :=
      Nat.le_trans (by decide) (Fork.le_def.1 (Fork.not_lt.1 hfork))
    have hone := counter_le_one hOn hen hqpos hle ((iterateE_add_of_ok hx j).trans hz)
    exact countsMiss_of_le_one hone (Nat.le_trans (Nat.sub_le _ _) hone)

/-- Past the queue in force the split counts a miss that a single call does not, once the second
call passes a slot beyond the first new queue. -/
theorem walk_outer_diverge (hOn : OnSlot (r, 0)) (hi : QueueInv env r) (hen : r.enabledIDs ≠ [])
    (ht : t₁ ≤ t) (hge : r.slotsLeft ≤ r.slotsTo t₁)
    (hfork : Fork.feeless2 ≤ getFork env.fTestNet pindex.nHeight) (hne : r.slotsTo t ≠ r.slotsTo t₁)
    (hlate : r.slotsLeft + r.enabledAfterQueue env pindex.nHeight < r.slotsTo t)
    (hx : walk env pindex (r.slotsTo t₁) r = .ok x) :
    Diverge (walk env pindex (r.slotsTo t) r) (walk env pindex (x.1.slotsTo t) x.1) := by
  obtain ⟨hsum, hwalk⟩ := walk_split hOn ht hx
  have hlt : r.queue.nCurrentSlot < r.queue.vStakerIDs.length := hOn
  have hleft : 0 < r.slotsLeft := by unfold slotsLeft; omega
  have hqpos : Fork.qpos ≤ getFork env.fTestNet pindex.nHeight :=
    Nat.le_trans (by decide) (Fork.le_def.1 hfork)
  have hbound := slotsTo_lt r t
  have hix : QueueInv env x.1 := (queueInv_iterateE pindex _ hi).1 x hx
  have hxOn : OnSlot x := (iterateE_clock _ hOn hx).1
  obtain ⟨y₂, hy₂, htwo⟩ := counter_eq_two hOn hen hqpos
  obtain ⟨a, ha, -⟩ := iterateE_enabled env pindex hen (r.slotsTo t) 0
  have hxen : x.1.enabledIDs ≠ [] := by
    obtain ⟨x', hx', hen'⟩ := iterateE_enabled env pindex hen (r.slotsTo t₁) 0
    rw [walk, hx'] at hx
    cases hx
    exact hen'
  obtain ⟨b, hb, -⟩ := iterateE_enabled env pindex hxen (x.1.slotsTo t) 0
  refine .inl ⟨a, b, ha, hb, ?_⟩
  rw [← walk, hwalk] at ha
  by_cases hfar : r.slotsLeft + r.enabledAfterQueue env pindex.nHeight ≤ r.slotsTo t₁
  · -- the first call is past its first new queue already
    obtain ⟨j, hj⟩ := Nat.exists_eq_add_of_le hfar
    have hx₂ : iterateE (advanceSlot env pindex) j y₂ = .ok x := by
      rw [← iterateE_add_of_ok hy₂, ← hj]
      exact hx
    have hxn : 2 ≤ x.2 := htwo ▸ iterateE_counter hx₂
    have hprod : x.1.fCurrentBlockWasProduced = false := iterateE_produced (by omega) hx
    exact iterateE_diverge hfork (x := x) (y := (x.1, 0)) (.refl _) hxn (Nat.zero_le 1) hix hxOn
      hprod (by omega) (by omega) ha hb
  · -- both walk to the end of the first new queue, where only the single call stops counting
    obtain ⟨i, hi'⟩ := Nat.exists_eq_add_of_lt (Nat.not_le.1 hfar)
    have hx₂ : iterateE (advanceSlot env pindex) (i + 1) x = .ok y₂ := by
      rw [← iterateE_add_of_ok hx, ← Nat.add_assoc, ← hi']
      exact hy₂
    have hxone : x.2 = 1 := by
      have hle := counter_le_one hOn hen hqpos (Nat.not_le.1 hfar) hx
      obtain ⟨y₁, hy₁, hone, -⟩ := iterateE_first_renewal hOn hen hqpos
      obtain ⟨j, hj⟩ := Nat.exists_eq_add_of_le hge
      have hx₁ : iterateE (advanceSlot env pindex) j y₁ = .ok x := by
        rw [← iterateE_add_of_ok hy₁, ← hj]
        exact hx
      have := iterateE_counter hx₁
      omega
    have happart : Apart x.2 x (x.1, 0) := ⟨.refl _, (Nat.zero_add _).symm⟩
    have hrel : ResultRel SameState (Apart x.2) (iterateE (advanceSlot env pindex) (i + 1) x)
        (iterateE (advanceSlot env pindex) (i + 1) (x.1, 0)) := by
      refine apart_iterateE (i + 1) happart fun j hj z hz => ?_
      have hle := counter_le_one hOn hen hqpos (k := r.slotsTo t₁ + j) (by omega)
        ((iterateE_add_of_ok hx j).trans hz)
      exact countsMiss_of_le_one hle (Nat.le_trans (Nat.sub_le _ _) hle)
    obtain ⟨y, hy, -⟩ := iterateE_enabled env pindex hxen (i + 1) 0
    rw [hx₂, hy] at hrel
    obtain ⟨hsame, hcount⟩ : Apart x.2 y₂ y := hrel
    obtain ⟨k, hk⟩ : ∃ k, x.1.slotsTo t = i + 1 + k := ⟨x.1.slotsTo t - (i + 1), by omega⟩
    rw [hk, iterateE_add_of_ok hx₂] at ha
    rw [hk, iterateE_add_of_ok hy] at hb
    exact iterateE_diverge hfork hsame (by omega) (by omega)
      ((queueInv_iterateE pindex _ (x := (x.1, 0)) hix).1 y hy)
      (iterateE_clock _ (x := (x.1, 0)) hxOn hy).1 (iterateE_produced (Nat.succ_pos i) hy) (by omega)
      (by omega) ha hb

end

def SameResult : Except QPRegistry (QPRegistry × Nat) → Except QPRegistry (QPRegistry × Nat) → Prop :=
  ResultRel SameState fun x y => SameState x.1 y.1

theorem SameResult.refl (a : Except QPRegistry (QPRegistry × Nat)) : SameResult a a :=
  ResultRel.refl SameState.refl (fun x => .refl x.1) a

theorem SameResult.symm (h : SameResult a b) : SameResult b a :=
  ResultRel.symm (fun _ _ h => h.symm) (fun _ _ h => h.symm) h

theorem SameResult.trans {c : Except QPRegistry (QPRegistry × Nat)} (h : SameResult a b)
    (h' : SameResult b c) : SameResult a c :=
  ResultRel.trans (fun _ _ _ h h' => h.trans h') (fun _ _ _ h h' => h.trans h') h h'

theorem SameResult.of_apart {d : Nat} (h : ResultRel SameState (Apart d) a b) : SameResult a b :=
  ResultRel.mono (fun _ _ h => h.1) h

theorem Diverge.of_sameResult {a' b' : Except QPRegistry (QPRegistry × Nat)} (h : Diverge a b)
    (ha : SameResult a a') (hb : SameResult b b') : Diverge a' b' := by
  rcases h with ⟨x, y, rfl, rfl, hdiff⟩ | ⟨x, y, rfl, rfl, hne⟩
  · cases a' with
    | error _ => exact ha.elim
    | ok x' =>
      cases b' with
      | error _ => exact hb.elim
      | ok y' =>
        exact .inl ⟨x', y', rfl, rfl, ((hdiff.of_sameState ha).symm.of_sameState hb).symm⟩
  · cases a' with
    | ok _ => exact ha.elim
    | error x' =>
      cases b' with
      | ok _ => exact hb.elim
      | error y' =>
        exact .inr ⟨x', y', rfl, rfl,
          fun h => hne ((SameState.trans ha h).trans (SameState.symm hb))⟩

section
variable {env : QPEnv} {pindex : CBlockIndex} {r : QPRegistry} {t₁ t : UInt32}

/-- The registry the first of two advances leaves, with or without success. -/
def afterWalk (env : QPEnv) (pindex : CBlockIndex) (t₁ : UInt32) (r : QPRegistry) : QPRegistry :=
  (outcome (walk env pindex (r.slotsTo t₁) r)).1

theorem afterWalk_of_ok (h : walk env pindex (r.slotsTo t₁) r = .ok x) :
    afterWalk env pindex t₁ r = x.1 := by rw [afterWalk, h]; rfl

theorem afterWalk_of_error {b : QPRegistry} (h : walk env pindex (r.slotsTo t₁) r = .error b) :
    afterWalk env pindex t₁ r = b := by rw [afterWalk, h]; rfl

abbrev secondWalk (env : QPEnv) (pindex : CBlockIndex) (t₁ t : UInt32) (r : QPRegistry) :
    Except QPRegistry (QPRegistry × Nat) :=
  walk env pindex ((afterWalk env pindex t₁ r).slotsTo t) (afterWalk env pindex t₁ r)

theorem WalkSafe.sameResult (hsafe : WalkSafe env pindex t₁ t r) (hOn : OnSlot (r, 0))
    (hi : QueueInv env r) (ht : t₁ ≤ t) :
    SameResult (walk env pindex (r.slotsTo t) r) (secondWalk env pindex t₁ t r) := by
  by_cases hlt : r.slotsTo t₁ < r.slotsLeft
  · obtain ⟨x, hx, heq⟩ := walk_inner env pindex hOn ht hlt
    rw [secondWalk, afterWalk_of_ok hx, heq]
    exact .refl _
  · rcases hsafe with h | ⟨hnil, hcond⟩ | ⟨hen, hcond⟩
    · exact absurd h hlt
    · obtain ⟨a, b, hb, hwalk, hretry, hiff⟩ :=
        walk_outer_nil pindex hOn hi ht (Nat.not_lt.1 hlt) hnil
      rw [secondWalk, afterWalk_of_error hb, hwalk, hretry]
      exact (hiff.2 hcond).symm
    · obtain ⟨x, hx, -⟩ := iterateE_enabled env pindex hen (r.slotsTo t₁) 0
      rw [secondWalk, afterWalk_of_ok hx]
      exact .of_apart (walk_outer_same hOn hen ht hx hcond)

theorem diverge_of_not_walkSafe (hsafe : ¬ WalkSafe env pindex t₁ t r) (hOn : OnSlot (r, 0))
    (hi : QueueInv env r) (ht : t₁ ≤ t) :
    Diverge (walk env pindex (r.slotsTo t) r) (secondWalk env pindex t₁ t r) := by
  simp only [WalkSafe, not_or, Nat.not_lt] at hsafe
  obtain ⟨hge, hnil, hen⟩ := hsafe
  by_cases h : r.enabledIDs = []
  · obtain ⟨a, b, hb, hwalk, hretry, hiff⟩ := walk_outer_nil pindex hOn hi ht hge h
    rw [secondWalk, afterWalk_of_error hb]
    exact .inr ⟨b, a, hwalk, hretry, fun hs => hnil ⟨h, hiff.1 hs.symm⟩⟩
  · have hcond := not_and.1 hen h
    simp only [not_or] at hcond
    obtain ⟨x, hx, -⟩ := iterateE_enabled env pindex h (r.slotsTo t₁) 0
    rw [secondWalk, afterWalk_of_ok hx]
    exact walk_outer_diverge hOn hi h ht hge (Fork.not_lt.1 hcond.1) hcond.2.1
      (Nat.not_le.1 hcond.2.2) hx

end

/-- The rest of a block update, given the registry and return value of the advance. -/
def afterAdvance (env : QPEnv) (now : Int) (fJustCheck : Bool) (pindexPrev pindex : CBlockIndex) :
    QPRegistry × Bool → QPRegistry × Verdict
  | (r, false) => (r, .rejected)
  | (r, true) => r.finishBlock env now fJustCheck pindexPrev pindex

theorem crossFork_of_le (h : Fork.missFix2 ≤ getFork env.fTestNet r.nBlockHeight) (nFork : Fork) :
    r.crossFork env nFork = r := by
  simp only [crossFork, if_neg (Fork.not_lt.2 h)]

theorem updateOnNewBlock_eq (h : Fork.missFix2 ≤ getFork env.fTestNet r.nBlockHeight) (now : Int)
    (nSnapshotType : SnapshotType) (fJustCheck : Bool) (pindexPrev pindex : CBlockIndex) (db : SnapshotDB) :
    (r.updateOnNewBlock env now nSnapshotType fJustCheck pindexPrev pindex db).2 =
      afterAdvance env now fJustCheck pindexPrev pindex
        ((r.takeSnapshot env nSnapshotType pindexPrev db).2.advanceTime env pindex.nTime pindexPrev) := by
  rw [updateOnNewBlock_snd, beforeAdvance, crossFork_of_le h]
  rfl

theorem finishBlock_sameState {a b : QPRegistry} (h : SameState a b)
    (hp : a.fCurrentBlockWasProduced = false) (now : Int) (fJustCheck : Bool)
    (pindexPrev pindex : CBlockIndex) : SameState (a.finishBlock env now fJustCheck pindexPrev pindex).1
        (b.finishBlock env now fJustCheck pindexPrev pindex).1 ∧
      (a.finishBlock env now fJustCheck pindexPrev pindex).2 =
        (b.finishBlock env now fJustCheck pindexPrev pindex).2 := by
  obtain ⟨m, s, rfl⟩ := h.exists_withMode
  obtain ⟨hframe, -⟩ := opsFrame_applyBlockOps env now fJustCheck pindex a
  unfold finishBlock
  rw [withMode_eq_override, applyBlockOps_override]
  cases hr : a.applyBlockOps env now fJustCheck pindex with
  | error e => exact ⟨rfl, rfl⟩
  | ok r =>
    have hrp : r.fCurrentBlockWasProduced = false := (hframe r hr).produced.trans hp
    dsimp only
    rw [produceBlock_override env pindexPrev pindex r _ fun h => absurd (hrp.symm.trans h) (by decide),
      ite_self]
    cases r.produceBlock env pindexPrev pindex <;> exact ⟨rfl, rfl⟩

theorem SameResult.afterAdvance
    (h : SameResult a b) (hp : ∀ x, a = .ok x → x.1.fCurrentBlockWasProduced = false) (now : Int)
    (fJustCheck : Bool) (pindexPrev pindex : CBlockIndex) :
    SameState (QPRegistry.afterAdvance env now fJustCheck pindexPrev pindex (outcome a)).1
        (QPRegistry.afterAdvance env now fJustCheck pindexPrev pindex (outcome b)).1 ∧
      (QPRegistry.afterAdvance env now fJustCheck pindexPrev pindex (outcome a)).2 =
        (QPRegistry.afterAdvance env now fJustCheck pindexPrev pindex (outcome b)).2 := by
  cases a with
  | error x => cases b with
    | error y => exact ⟨h, rfl⟩
    | ok y => exact h.elim
  | ok x => cases b with
    | error y => exact h.elim
    | ok y => exact finishBlock_sameState h (hp x rfl) now fJustCheck pindexPrev pindex

theorem Diverge.afterAdvance
    (h : Diverge a b) (ha : ∀ x, a = .ok x → IdsInOrder x.1) (hb : ∀ x, b = .ok x → IdsInOrder x.1)
    (now : Int) (fJustCheck : Bool) (pindexPrev pindex : CBlockIndex) :
    ¬ SameState (QPRegistry.afterAdvance env now fJustCheck pindexPrev pindex (outcome a)).1
      (QPRegistry.afterAdvance env now fJustCheck pindexPrev pindex (outcome b)).1 := by
  rcases h with ⟨x, y, rfl, rfl, hdiff⟩ | ⟨x, y, rfl, rfl, hne⟩
  · exact (hdiff.finishBlock (ha x rfl) (hb y rfl) now fJustCheck pindexPrev pindex).not_sameState
  · exact hne

theorem SameState.onSlot (h : SameState r r') (hOn : OnSlot (r, 0)) : OnSlot (r', 0) := by
  obtain ⟨m, s, rfl⟩ := h.exists_withMode
  exact hOn

theorem SameState.slotsTo (h : SameState r r') (t : UInt32) : r'.slotsTo t = r.slotsTo t := by
  obtain ⟨m, s, rfl⟩ := h.exists_withMode
  rfl

/-- The walk of the advance inside a block update, up to the snapshot taken before it. -/
theorem sameResult_takeSnapshot (r : QPRegistry) (t : UInt32)
    (nSnapshotType : SnapshotType) (db : SnapshotDB) : SameResult (walk env pindex (r.slotsTo t) r)
      (walk env pindex ((r.takeSnapshot env nSnapshotType pindex db).2.slotsTo t)
        (r.takeSnapshot env nSnapshotType pindex db).2) := by
  have hsame := sameState_takeSnapshot env nSnapshotType pindex db r
  rw [hsame.slotsTo t]
  exact .of_apart (walk_sameState _ hsame)

theorem passSlot_nBlockHeight (env : QPEnv) (pindex : CBlockIndex) (n : Nat) (r : QPRegistry) :
    (r.passSlot env pindex n).nBlockHeight = r.nBlockHeight := by
  obtain ⟨ms, pr, br, fp, m, hpass⟩ := passSlot_frame env pindex n r
  rw [hpass]

theorem updateOnNewTime_nBlockHeight (env : QPEnv) (t₁ : UInt32) (pindex : CBlockIndex) (r : QPRegistry) :
    (r.updateOnNewTime env t₁ pindex).1.nBlockHeight = r.nBlockHeight :=
  advanceTime_view (·.nBlockHeight) (fun r n => passSlot_nBlockHeight env pindex n r) fun _ _ => rfl

theorem QueueInv.afterWalk (hi : QueueInv env r)
    (pindex : CBlockIndex) (t₁ : UInt32) : QueueInv env (QPRegistry.afterWalk env pindex t₁ r) := by
  obtain ⟨hok, herr⟩ := queueInv_iterateE pindex (r.slotsTo t₁) (x := (r, 0)) hi
  cases h : walk env pindex (r.slotsTo t₁) r with
  | error b => rw [afterWalk_of_error h]; exact herr b h
  | ok x => rw [afterWalk_of_ok h]; exact hok x h

theorem QueueInv.onSlot (hi : QueueInv env r)
    (hheight : Fork.missFix2 ≤ getFork env.fTestNet r.nBlockHeight) : OnSlot (r, 0) :=
  hi.slot (hi.started (Nat.le_trans (by decide) (Fork.le_def.1 hheight)))

/-- A block update preceded by an advance to an earlier time agrees with the block update alone. -/
def SplitSafe (env : QPEnv) (pindexPrev : CBlockIndex) (t₁ t : UInt32) (r : QPRegistry) : Prop :=
  getFork env.fTestNet (pindexPrev.nHeight + 1) < .qpos ∨ WalkSafe env pindexPrev t₁ t r

section
variable {env : QPEnv} {r : QPRegistry} {pindexPrev pindex : CBlockIndex} {t₁ : UInt32}

theorem updateOnNewTime_eq_afterWalk (hi : QueueInv env r)
    (hheight : Fork.missFix2 ≤ getFork env.fTestNet r.nBlockHeight)
    (hfork : Fork.qpos ≤ getFork env.fTestNet (pindexPrev.nHeight + 1)) :
    (r.updateOnNewTime env t₁ pindexPrev).1 = afterWalk env pindexPrev t₁ r := by
  rw [updateOnNewTime, advanceTime_eq_walk (hi.onSlot hheight) t₁ hfork]
  rfl

theorem updateOnNewBlock_eq_walk (pindex : CBlockIndex) (hi : QueueInv env r)
    (hheight : Fork.missFix2 ≤ getFork env.fTestNet r.nBlockHeight)
    (hfork : Fork.qpos ≤ getFork env.fTestNet (pindexPrev.nHeight + 1)) (now : Int)
    (nSnapshotType : SnapshotType) (fJustCheck : Bool) (db : SnapshotDB) :
    ∃ a, SameResult (walk env pindexPrev (r.slotsTo pindex.nTime) r) a ∧
      (∀ x, a = .ok x → IdsInOrder x.1) ∧
      (r.updateOnNewBlock env now nSnapshotType fJustCheck pindexPrev pindex db).2 =
        afterAdvance env now fJustCheck pindexPrev pindex (outcome a) := by
  have hsame := sameState_takeSnapshot env nSnapshotType pindexPrev db r
  refine ⟨_, sameResult_takeSnapshot r pindex.nTime nSnapshotType db, fun x hx => ?_, ?_⟩
  · exact ((queueInv_iterateE pindexPrev _ (x := (_, 0)) (hsame.queueInv hi)).1 x hx).ids
  · rw [updateOnNewBlock_eq hheight, advanceTime_eq_walk (hsame.onSlot (hi.onSlot hheight)) _ hfork]

theorem updateOnNewBlock_sameState (hi : QueueInv env r)
    (hheight : Fork.missFix2 ≤ getFork env.fTestNet r.nBlockHeight) (ht : t₁ ≤ pindex.nTime)
    (hsafe : SplitSafe env pindexPrev t₁ pindex.nTime r) (now : Int) (nSnapshotType : SnapshotType)
    (fJustCheck : Bool) (db : SnapshotDB) : SameState
        ((r.updateOnNewTime env t₁ pindexPrev).1.updateOnNewBlock env now nSnapshotType fJustCheck
          pindexPrev pindex db).2.1
        (r.updateOnNewBlock env now nSnapshotType fJustCheck pindexPrev pindex db).2.1 ∧
      ((r.updateOnNewTime env t₁ pindexPrev).1.updateOnNewBlock env now nSnapshotType fJustCheck
          pindexPrev pindex db).2.2 =
        (r.updateOnNewBlock env now nSnapshotType fJustCheck pindexPrev pindex db).2.2 := by
  by_cases hq : getFork env.fTestNet (pindexPrev.nHeight + 1) < .qpos
  · rw [updateOnNewTime, advanceTime, if_neg (Fork.not_le.2 hq)]
    exact ⟨.refl _, rfl⟩
  · have hfork := Fork.not_lt.1 hq
    have hheight₁ := (updateOnNewTime_nBlockHeight env t₁ pindexPrev r).symm ▸ hheight
    rw [updateOnNewTime_eq_afterWalk hi hheight hfork] at hheight₁ ⊢
    by_cases hzero : r.slotsTo t₁ = 0
    · -- the first call passes no slot
      rw [afterWalk_of_ok (x := (r, 0)) (by rw [hzero]; rfl)]
      exact ⟨.refl _, rfl⟩
    · have hi₁ := hi.afterWalk pindexPrev t₁
      obtain ⟨a, ha, -, hua⟩ :=
        updateOnNewBlock_eq_walk pindex hi hheight hfork now nSnapshotType fJustCheck db
      obtain ⟨b, hb, -, hub⟩ :=
        updateOnNewBlock_eq_walk pindex hi₁ hheight₁ hfork now nSnapshotType fJustCheck db
      have hwalk := (hsafe.resolve_left hq).sameResult (hi.onSlot hheight) hi ht
      have hba : SameResult b a := ((ha.symm.trans hwalk).trans hb).symm
      rw [hua, hub]
      refine hba.afterAdvance (fun x hx => ?_) now fJustCheck pindexPrev pindex
      -- the single walk passes a slot, so its last slot is empty
      have hpos : 0 < r.slotsTo pindex.nTime :=
        Nat.lt_of_lt_of_le (Nat.pos_of_ne_zero hzero) (slotsTo_le ht)
      subst hx
      cases hs : walk env pindexPrev (r.slotsTo pindex.nTime) r with
      | error e => rw [hs] at ha; exact ((ha.trans hba.symm)).elim
      | ok y =>
        rw [hs] at ha
        obtain ⟨m, s, heq⟩ : ∃ m s, x.1 = y.1.withMode m s :=
          SameState.exists_withMode (ha.trans hba.symm)
        rw [heq]
        exact iterateE_produced hpos hs

theorem updateOnNewBlock_not_sameState (hi : QueueInv env r)
    (hheight : Fork.missFix2 ≤ getFork env.fTestNet r.nBlockHeight) (ht : t₁ ≤ pindex.nTime)
    (hsafe : ¬ SplitSafe env pindexPrev t₁ pindex.nTime r) (now : Int)
    (nSnapshotType : SnapshotType) (fJustCheck : Bool) (db : SnapshotDB) : ¬ SameState
        ((r.updateOnNewTime env t₁ pindexPrev).1.updateOnNewBlock env now nSnapshotType fJustCheck
          pindexPrev pindex db).2.1
        (r.updateOnNewBlock env now nSnapshotType fJustCheck pindexPrev pindex db).2.1 := by
  obtain ⟨hq, hwalk⟩ := not_or.1 hsafe
  have hfork := Fork.not_lt.1 hq
  have hheight₁ := (updateOnNewTime_nBlockHeight env t₁ pindexPrev r).symm ▸ hheight
  rw [updateOnNewTime_eq_afterWalk hi hheight hfork] at hheight₁ ⊢
  have hi₁ := hi.afterWalk pindexPrev t₁
  obtain ⟨a, ha, hida, hua⟩ :=
    updateOnNewBlock_eq_walk pindex hi hheight hfork now nSnapshotType fJustCheck db
  obtain ⟨b, hb, hidb, hub⟩ :=
    updateOnNewBlock_eq_walk pindex hi₁ hheight₁ hfork now nSnapshotType fJustCheck db
  have hdiv := (diverge_of_not_walkSafe hwalk (hi.onSlot hheight) hi ht).of_sameResult ha hb
  rw [hua, hub]
  exact fun h => hdiv.afterAdvance hida hidb now fJustCheck pindexPrev pindex h.symm

end

end Stealth.QPRegistry

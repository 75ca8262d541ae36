import Mathlib.Data.List.Perm.Subperm
import Stealth.Qpos.Invariant

/-!
The advance loop as a walk over slots. Every iteration moves the end of the current slot by the
slot length, so the number of iterations depends on two times only, and the loop always ends.
-/

namespace Stealth

open Loop

variable {e t : UInt32} {env : QPEnv} {pindex : CBlockIndex} {x y : QPRegistry × Nat}

/-- The number of slots whose end lies before a time, counted from a slot end. -/
def slotsPassed (slotEnd nTime : UInt32) : Nat :=
  ticks (fun e => decide (e < nTime)) (· + QP_TARGET_SPACING) QPRegistry.advanceFuel slotEnd

/-- The slots from an end up to the last second of the clock; five is invertible modulo
`2 ^ 32`. -/
def slotsToWrap (slotEnd : UInt32) : Nat := ((0xffffffff - slotEnd) * 0xcccccccd).toNat

theorem slotsToWrap_tick (h : e < t) : slotsToWrap (e + QP_TARGET_SPACING) < slotsToWrap e := by
  unfold slotsToWrap QP_TARGET_SPACING
  have hstep : ((0xffffffff - (e + 5)) * 0xcccccccd : UInt32) = (0xffffffff - e) * 0xcccccccd - 1 := by
    grind
  have hne : ((0xffffffff - e) * 0xcccccccd : UInt32) ≠ 0 := by
    intro h0
    have hinv : ((0xffffffff - e) * 0xcccccccd * 5 : UInt32) = 0xffffffff - e := by grind
    rw [h0] at hinv
    have he : e = 0xffffffff := by grind
    rw [he, UInt32.lt_iff_toNat_lt] at h
    have ht := t.toNat_lt
    simp only [UInt32.reduceToNat] at h
    omega
  rw [hstep]
  generalize ((0xffffffff - e) * 0xcccccccd : UInt32) = x at hne
  have hx : x.toNat ≠ 0 := fun h0 => hne (UInt32.toNat_inj.1 h0)
  have hle : (1 : UInt32) ≤ x := UInt32.le_iff_toNat_le.2 (by simp only [UInt32.reduceToNat]; omega)
  rw [UInt32.toNat_sub_of_le _ _ hle]
  simp only [UInt32.reduceToNat]
  omega

theorem slotsToWrap_lt (e : UInt32) : slotsToWrap e < QPRegistry.advanceFuel := UInt32.toNat_lt _

theorem slotsPassed_lt (e t : UInt32) : slotsPassed e t < 2 ^ 32 := by
  refine Nat.lt_of_le_of_lt ?_ (slotsToWrap_lt e)
  exact (ticks_of_measure (μ := slotsToWrap) (fun _ h => slotsToWrap_tick (of_decide_eq_true h)) _ e
    (slotsToWrap_lt e)).1

theorem slotsPassed_of_not (h : ¬ e < t) : slotsPassed e t = 0 := by
  unfold slotsPassed QPRegistry.advanceFuel
  simp [ticks, h]

theorem slotsPassed_of_lt (h : e < t) : slotsPassed e t = slotsPassed (e + QP_TARGET_SPACING) t + 1 := by
  have hfuel := (ticks_of_measure (g := fun e => decide (e < t)) (μ := slotsToWrap)
    (fun _ h => slotsToWrap_tick (of_decide_eq_true h)) QPRegistry.advanceFuel
    (e + QP_TARGET_SPACING) (slotsToWrap_lt _)).2 (QPRegistry.advanceFuel - 1) (by
      have h₁ := slotsToWrap_tick h
      have h₂ := slotsToWrap_lt e
      omega)
  unfold slotsPassed
  rw [← hfuel]
  change ticks _ _ (QPRegistry.advanceFuel - 1 + 1) e = _
  simp [ticks, h]

theorem slotsPassed_pos_iff : 0 < slotsPassed e t ↔ e < t := by
  by_cases h : e < t
  · simp [h, slotsPassed_of_lt h]
  · simp [h, slotsPassed_of_not h]

theorem slotsPassed_add {t₁ : UInt32} (ht : t₁ ≤ t) : ∀ (n : Nat) (e : UInt32), n ≤ slotsPassed e t₁ →
      slotsPassed e t = n + slotsPassed (e + QP_TARGET_SPACING * UInt32.ofNat n) t
  | 0, e, _ => by simp
  | n + 1, e, h => by
    have he : e < t₁ := slotsPassed_pos_iff.1 (by omega)
    have het : e < t := UInt32.lt_of_lt_of_le he ht
    rw [slotsPassed_of_lt he] at h
    have ih := slotsPassed_add ht n (e + QP_TARGET_SPACING) (by omega)
    rw [slotsPassed_of_lt het, ih]
    have harg : e + QP_TARGET_SPACING + QP_TARGET_SPACING * UInt32.ofNat n =
        e + QP_TARGET_SPACING * UInt32.ofNat (n + 1) := by
      rw [UInt32.ofNat_add]
      grind
    rw [harg]
    omega

namespace QPRegistry

theorem stakerMissedBlock_frame (env : QPEnv) (r : QPRegistry) (nID : Nat) (nHeight : Int) :
    ∃ ms pr br fp, r.stakerMissedBlock env nID nHeight =
      { r with
        mapStakers := ms, powerRoundCurrent := pr, bRecentBlocks := br
        fPrevBlockWasProduced := fp } := by
  rcases stakerMissedBlock_cases env r nID nHeight with ⟨-, heq⟩ | ⟨s, s', -, -, heq, -⟩ <;>
    exact ⟨_, _, _, _, heq⟩

theorem passSlot_frame (env : QPEnv) (pindex : CBlockIndex) (n : Nat) (r : QPRegistry) :
    ∃ ms pr br fp m, r.passSlot env pindex n =
      { r with
        mapStakers := ms, powerRoundCurrent := pr, bRecentBlocks := br
        fPrevBlockWasProduced := fp, nHeightExitedReplay := m } := by
  unfold passSlot
  split
  · exact ⟨_, _, _, _, _, rfl⟩
  · split
    · obtain ⟨ms, pr, br, fp, h⟩ :=
        stakerMissedBlock_frame env r r.queue.getCurrentID pindex.nHeight
      exact ⟨ms, pr, br, fp, _, h⟩
    · exact ⟨_, _, _, _, _, rfl⟩

@[simp] theorem passSlot_queue (env : QPEnv) (pindex : CBlockIndex) (n : Nat) (r : QPRegistry) :
    (r.passSlot env pindex n).queue = r.queue := by
  obtain ⟨_, _, _, _, _, h⟩ := passSlot_frame env pindex n r
  rw [h]

@[simp] theorem passSlot_produced (env : QPEnv) (pindex : CBlockIndex) (n : Nat) (r : QPRegistry) :
    (r.passSlot env pindex n).fCurrentBlockWasProduced = r.fCurrentBlockWasProduced := by
  obtain ⟨_, _, _, _, _, h⟩ := passSlot_frame env pindex n r
  rw [h]

@[simp] theorem checkPower_queue (env : QPEnv) (r : QPRegistry) : (r.checkPower env).queue = r.queue := by
  obtain ⟨_, _, h⟩ := checkPower_frame env r
  rw [h]

@[simp] theorem checkPower_produced (env : QPEnv) (r : QPRegistry) :
    (r.checkPower env).fCurrentBlockWasProduced = r.fCurrentBlockWasProduced := by
  obtain ⟨_, _, h⟩ := checkPower_frame env r
  rw [h]

@[simp] theorem checkPower_mapStakers (env : QPEnv) (r : QPRegistry) :
    (r.checkPower env).mapStakers = r.mapStakers := by
  obtain ⟨_, _, h⟩ := checkPower_frame env r
  rw [h]

theorem enabledIDs_congr {r r' : QPRegistry} (h : r'.mapStakers = r.mapStakers) :
    r'.enabledIDs = r.enabledIDs := by
  simp only [enabledIDs, h]

theorem advanceSlot_produced
    (h : advanceSlot env pindex x = .ok y) : y.1.fCurrentBlockWasProduced = false := by
  rcases advanceSlot_ok h with ⟨q, -, rfl⟩ | ⟨r, -, -, rfl⟩ <;> simp [setProduced]

def OnSlot (x : QPRegistry × Nat) : Prop :=
  x.1.queue.nCurrentSlot < x.1.queue.vStakerIDs.length

theorem incrementSlot_eq_some {q q' : QPQueue} (h : q.incrementSlot = some q') :
    q.nCurrentSlot + 1 < q.vStakerIDs.length ∧ q' = { q with nCurrentSlot := q.nCurrentSlot + 1 } := by
  unfold QPQueue.incrementSlot at h
  split at h
  · cases h
  · next hlt => cases h; exact ⟨Nat.lt_of_not_le hlt, rfl⟩

theorem incrementSlot_eq_none {q : QPQueue} (h : q.incrementSlot = none) :
    q.vStakerIDs.length ≤ q.nCurrentSlot + 1 := by
  unfold QPQueue.incrementSlot at h
  split at h
  · next hle => exact hle
  · cases h

theorem advanceSlot_clock (hx : OnSlot x) (h : advanceSlot env pindex x = .ok y) :
    OnSlot y ∧ y.1.queue.getCurrentSlotEnd = x.1.queue.getCurrentSlotEnd + QP_TARGET_SPACING := by
  rcases advanceSlot_ok h with ⟨q, hq, rfl⟩ | ⟨r, hq, hn, rfl⟩
  · rw [passSlot_queue] at hq
    obtain ⟨hlt, rfl⟩ := incrementSlot_eq_some hq
    refine ⟨?_, ?_⟩
    · simpa [OnSlot, setProduced, setQueue] using hlt
    · simp only [checkPower_queue, setProduced, setQueue, QPQueue.getCurrentSlotEnd,
        QPQueue.slotStart, UInt32.ofNat_add]
      grind
  · rw [passSlot_queue] at hq hn
    have hle := incrementSlot_eq_none hq
    obtain ⟨hslot, htime, -, hne, -⟩ := newQueue_spec hn
    have hlen : x.1.queue.vStakerIDs.length = x.1.queue.nCurrentSlot + 1 :=
      Nat.le_antisymm hle hx
    refine ⟨?_, ?_⟩
    · simpa [OnSlot, setProduced, hslot] using List.length_pos_iff.2 hne
    · simp only [checkPower_queue, setProduced, QPQueue.getCurrentSlotEnd, QPQueue.slotStart, hslot,
        htime, QPQueue.getMaxTime, hlen, UInt32.ofNat_add]
      grind

theorem advanceLoop_eq_iterateE (env : QPEnv) (nTime : UInt32) (pindex : CBlockIndex) (hx : OnSlot x) :
    advanceLoop env nTime pindex x =
      iterateE (advanceSlot env pindex) (slotsPassed x.1.queue.getCurrentSlotEnd nTime) x :=
  whileLoop_eq_iterateE (P := OnSlot) (fun e => decide (e < nTime)) (· + QP_TARGET_SPACING)
    (fun x => x.1.queue.getCurrentSlotEnd) (fun _ => rfl)
    (fun _ _ hP hb => advanceSlot_clock hP hb) advanceFuel x hx

theorem iterateE_clock : ∀ (k : Nat) {x y : QPRegistry × Nat},
    OnSlot x → iterateE (advanceSlot env pindex) k x = .ok y →
      OnSlot y ∧ y.1.queue.getCurrentSlotEnd =
        x.1.queue.getCurrentSlotEnd + QP_TARGET_SPACING * UInt32.ofNat k
  | 0, x, y, hx, h => by cases h; exact ⟨hx, by simp⟩
  | k + 1, x, y, hx, h => by
    obtain ⟨z, hz, hrest⟩ := iterateE_succ_ok h
    obtain ⟨hOn, hclock⟩ := advanceSlot_clock hx hz
    obtain ⟨hOn', hclock'⟩ := iterateE_clock k hOn hrest
    refine ⟨hOn', ?_⟩
    rw [hclock', hclock, UInt32.ofNat_add]
    grind

theorem enabledIDs_stakerMissedBlock (env : QPEnv) (r : QPRegistry) (nID : Nat) (nHeight : Int) :
    (∀ id ∈ (r.stakerMissedBlock env nID nHeight).enabledIDs, id ∈ r.enabledIDs) ∧
      (r.enabledIDs ≠ [] → (r.stakerMissedBlock env nID nHeight).enabledIDs ≠ []) := by
  rcases stakerMissedBlock_cases env r nID nHeight with ⟨-, heq⟩ | ⟨s, s', hs, -, heq, hm, -⟩
  · rw [heq]
    exact ⟨fun _ h => h, id⟩
  · have hmap := (getStakerInternal_eq_some.1 hs).2
    have hmem : ∀ id, id ∈ (r.stakerMissedBlock env nID nHeight).enabledIDs ↔
        if id = nID then s'.isEnabled = true else id ∈ r.enabledIDs := by
      intro id
      rw [heq, enabledIDs_congr (r := (r.pushPower nID s false).putStaker nID s')
        (by simp [recordSlot]), mem_enabledIDs_putStaker,
        show (r.pushPower nID s false).enabledIDs = r.enabledIDs from rfl]
    refine ⟨fun id hid => ?_, fun hne => ?_⟩
    · have := (hmem id).1 hid
      split at this
      · next h => subst h; exact mem_enabledIDs.2 ⟨s, hmap, hm.enabled this⟩
      · exact this
    · -- some enabled staker is left: this one, or another of more than three
      by_cases hen : s'.isEnabled = true
      · exact List.ne_nil_of_mem ((hmem nID).2 (by simpa using hen))
      · by_cases hother : ∃ id ∈ r.enabledIDs, id ≠ nID
        · obtain ⟨id, hid, hidne⟩ := hother
          exact List.ne_nil_of_mem ((hmem id).2 (by simpa [hidne] using hid))
        · exfalso
          have hall : ∀ id ∈ r.enabledIDs, id = nID := fun id hid => by
            by_contra h
            exact hother ⟨id, hid, h⟩
          obtain ⟨id, hid⟩ := List.exists_mem_of_ne_nil _ hne
          have hself : nID ∈ r.enabledIDs := hall id hid ▸ hid
          obtain ⟨t, ht, hte⟩ := mem_enabledIDs.1 hself
          rw [hmap] at ht
          cases ht
          have h3 := hm.disabled hte (by simpa using hen)
          have hle : r.enabledIDs.length ≤ [nID].length :=
            (List.subperm_of_subset (nodup_enabledIDs r) fun id hid => by simp [hall id hid]).length_le
          simp only [List.length_cons, List.length_nil] at hle
          omega

theorem enabledIDs_passSlot (env : QPEnv) (pindex : CBlockIndex) (n : Nat) (r : QPRegistry) :
    (∀ id ∈ (r.passSlot env pindex n).enabledIDs, id ∈ r.enabledIDs) ∧
      (r.enabledIDs ≠ [] → (r.passSlot env pindex n).enabledIDs ≠ []) := by
  unfold passSlot
  split
  · exact ⟨fun _ h => h, id⟩
  · split
    · exact enabledIDs_stakerMissedBlock ..
    · exact ⟨fun _ h => h, id⟩

theorem advanceSlot_total (env : QPEnv) (pindex : CBlockIndex) (hx : x.1.enabledIDs ≠ []) :
    ∃ y, advanceSlot env pindex x = .ok y ∧ y.1.enabledIDs ≠ [] := by
  have hpass := (enabledIDs_passSlot env pindex x.2 x.1).2 hx
  cases h : advanceSlot env pindex x with
  | error r => exact absurd (advanceSlot_error h).2.1 hpass
  | ok y =>
    refine ⟨y, rfl, ?_⟩
    rcases advanceSlot_ok h with ⟨q, -, rfl⟩ | ⟨r, -, hn, rfl⟩
    · rw [enabledIDs_congr (r := x.1.passSlot env pindex x.2) (by simp [setProduced, setQueue])]
      exact hpass
    · obtain ⟨-, -, -, -, hst, -⟩ := newQueue_spec hn
      rw [enabledIDs_congr (r := x.1.passSlot env pindex x.2)
        (by simp only [checkPower_mapStakers, setProduced, hst]; rfl)]
      exact hpass

end QPRegistry

end Stealth

import Mathlib.Data.List.GetD
import Stealth.Qpos.Slots

/-!
Splitting the time advance at an earlier time. From `XST_FORKFEELESS2` on the queues renewed in one call
decide what is a miss.
-/

namespace Stealth.QPRegistry

open Loop

variable {r r' : QPRegistry} {env : QPEnv} {x y : QPRegistry × Nat} {pindex : CBlockIndex}
  {k d n nID : Nat} {nFork : Fork} {s : QPStaker}

def missAll (env : QPEnv) (nHeight : Int) (r : QPRegistry) (ids : List Nat) : QPRegistry :=
  ids.foldl (fun r nID => r.stakerMissedBlock env nID nHeight) r

/-- The stakers of the slots from the current one on that have no block. -/
def pendingIDs (r : QPRegistry) : List Nat :=
  if r.fCurrentBlockWasProduced then r.queue.vStakerIDs.drop (r.queue.nCurrentSlot + 1)
  else r.queue.vStakerIDs.drop r.queue.nCurrentSlot

/-- The number of stakers enabled once the stakers of all pending slots have missed: the size of
the next queue if no further block arrives in this one. -/
def enabledAfterQueue (env : QPEnv) (nHeight : Int) (r : QPRegistry) : Nat :=
  (missAll env nHeight r r.pendingIDs).enabledIDs.length

/-- The fields that decide what a miss does to the stakers. -/
structure SameMiss (r r' : QPRegistry) : Prop where
  stakers : r'.mapStakers = r.mapStakers
  counter : r'.nIDCounter = r.nIDCounter
  prev : r'.fPrevBlockWasProduced = r.fPrevBlockWasProduced
  height : r'.nBlockHeight = r.nBlockHeight

theorem SameMiss.getStakerInternal (h : SameMiss r r') (nID : Nat) :
    r'.getStakerInternal nID = r.getStakerInternal nID := by
  simp only [QPRegistry.getStakerInternal, h.stakers, h.counter]

theorem SameMiss.putStaker (h : SameMiss r r') (nID : Nat) (s : QPStaker) :
    SameMiss (r.putStaker nID s) (r'.putStaker nID s) :=
  ⟨by simp only [QPRegistry.putStaker, h.stakers], h.counter, h.prev, h.height⟩

theorem SameMiss.disableStakerIfNecessary (h : SameMiss r r') (env : QPEnv)
    (nID : Nat) (s : QPStaker) (nHeight : Int) : SameMiss (r.disableStakerIfNecessary env nID s nHeight)
      (r'.disableStakerIfNecessary env nID s nHeight) := by
  have hcount : r'.getNumberEnabledInternal = r.getNumberEnabledInternal := by
    simp only [getNumberEnabledInternal, getNumberOf, h.stakers]
  simp only [QPRegistry.disableStakerIfNecessary, disableStaker, h.height, hcount,
    h.getStakerInternal nID]
  split
  · exact h
  · split
    · split
      · exact h
      · split
        · exact h
        · exact h.putStaker _ _
    · exact h

theorem SameMiss.stakerMissedBlock (h : SameMiss r r') (env : QPEnv) (nID : Nat) (nHeight : Int) :
    SameMiss (r.stakerMissedBlock env nID nHeight) (r'.stakerMissedBlock env nID nHeight) := by
  simp only [QPRegistry.stakerMissedBlock, h.getStakerInternal nID, h.prev]
  split
  · exact h
  · next s _ =>
    split
    · exact h
    · have hpush : SameMiss (r.pushPower nID s false) (r'.pushPower nID s false) :=
        ⟨h.stakers, h.counter, h.prev, h.height⟩
      have hput := hpush.putStaker nID
        (s.missedBlock r.fPrevBlockWasProduced (getFork env.fTestNet nHeight))
      split
      · have hd := hput.disableStakerIfNecessary env nID
          (s.missedBlock r.fPrevBlockWasProduced (getFork env.fTestNet nHeight)) nHeight
        exact ⟨hd.stakers, hd.counter, rfl, hd.height⟩
      · exact ⟨hput.stakers, hput.counter, rfl, hput.height⟩

theorem SameMiss.missAll {nHeight : Int} : ∀ (ids : List Nat) {r r' : QPRegistry},
    SameMiss r r' → SameMiss (missAll env nHeight r ids) (missAll env nHeight r' ids)
  | [], _, _, h => h
  | nID :: rest, _, _, h => SameMiss.missAll rest (h.stakerMissedBlock env nID nHeight)

theorem getCurrentID_eq (h : r.queue.nCurrentSlot < r.queue.vStakerIDs.length) :
    r.queue.vStakerIDs.drop r.queue.nCurrentSlot =
      r.queue.getCurrentID :: r.queue.vStakerIDs.drop (r.queue.nCurrentSlot + 1) := by
  rw [List.drop_eq_getElem_cons h, QPQueue.getCurrentID, List.getD_eq_getElem _ _ h]

theorem advanceSlot_inner (env : QPEnv) (pindex : CBlockIndex)
    (hx : x.1.queue.nCurrentSlot + 1 < x.1.queue.vStakerIDs.length) : advanceSlot env pindex x =
      .ok ((((x.1.passSlot env pindex x.2).setQueue
        { x.1.queue with nCurrentSlot := x.1.queue.nCurrentSlot + 1 }).setProduced false).checkPower
          env, x.2) := by
  have hinc : (x.1.passSlot env pindex x.2).queue.incrementSlot =
      some { x.1.queue with nCurrentSlot := x.1.queue.nCurrentSlot + 1 } := by
    rw [passSlot_queue]
    simp only [QPQueue.incrementSlot, if_neg (Nat.not_le.2 hx)]
  simp only [advanceSlot, nextSlot, hinc]

/-- Before its last slot a queue is walked slot by slot, without renewal and without failure. -/
theorem iterateE_inner (env : QPEnv) (pindex : CBlockIndex) : ∀ (k : Nat) (x : QPRegistry × Nat),
    x.1.queue.nCurrentSlot + k < x.1.queue.vStakerIDs.length →
      ∃ y, iterateE (advanceSlot env pindex) k x = .ok y ∧ y.2 = x.2 ∧
        y.1.queue.vStakerIDs = x.1.queue.vStakerIDs ∧
        y.1.queue.nCurrentSlot = x.1.queue.nCurrentSlot + k
  | 0, x, _ => ⟨x, rfl, rfl, rfl, rfl⟩
  | k + 1, x, hx => by
    have hstep := advanceSlot_inner env pindex (x := x) (by omega)
    generalize hz : ((((x.1.passSlot env pindex x.2).setQueue
      { x.1.queue with nCurrentSlot := x.1.queue.nCurrentSlot + 1 }).setProduced false).checkPower
        env, x.2) = z at hstep
    have hids : z.1.queue.vStakerIDs = x.1.queue.vStakerIDs := by
      rw [← hz]; simp [setProduced, setQueue]
    have hcur : z.1.queue.nCurrentSlot = x.1.queue.nCurrentSlot + 1 := by
      rw [← hz]; simp [setProduced, setQueue]
    obtain ⟨y, hy, hn, hi, hc⟩ := iterateE_inner env pindex k z (by rw [hcur, hids]; omega)
    refine ⟨y, by simp only [iterateE, hstep, hy], ?_, hi.trans hids, by omega⟩
    rw [hn, ← hz]

/-- The iteration on the last slot renews the queue with the stakers enabled by then. -/
theorem advanceSlot_last (env : QPEnv) (pindex : CBlockIndex)
    (hx : x.1.queue.vStakerIDs.length ≤ x.1.queue.nCurrentSlot + 1) (hen : x.1.enabledIDs ≠ []) :
    ∃ y, advanceSlot env pindex x = .ok y ∧ y.2 = x.2 + 1 ∧ y.1.queue.nCurrentSlot = 0 ∧
      y.1.queue.vStakerIDs.length = (x.1.passSlot env pindex x.2).enabledIDs.length ∧
      y.1.enabledIDs ≠ [] := by
  obtain ⟨y, hy, hyen⟩ := advanceSlot_total env pindex hen
  refine ⟨y, hy, ?_⟩
  rcases advanceSlot_ok hy with ⟨q, hq, -⟩ | ⟨r, -, hn, rfl⟩
  · rw [passSlot_queue] at hq
    have := (incrementSlot_eq_some hq).1
    omega
  · obtain ⟨hslot, -, hperm, -⟩ := newQueue_spec hn
    refine ⟨rfl, by simpa [setProduced] using hslot, ?_, hyen⟩
    rw [checkPower_queue]
    exact hperm.length_eq.trans (congrArg List.length (enabledIDs_congr rfl))

theorem passSlot_eq_missAll
    (hcount : countsMiss (getFork env.fTestNet pindex.nHeight) x.2 = true) (hx : OnSlot x) :
    missAll env pindex.nHeight x.1 x.1.pendingIDs =
      missAll env pindex.nHeight (x.1.passSlot env pindex x.2)
        (x.1.queue.vStakerIDs.drop (x.1.queue.nCurrentSlot + 1)) := by
  by_cases hp : x.1.fCurrentBlockWasProduced = true
  · simp only [pendingIDs, passSlot, if_pos hp]
  · simp only [pendingIDs, passSlot, if_neg hp, if_pos hcount, getCurrentID_eq hx]
    rfl

/-- The size of the next queue is fixed at the start of the walk, as long as misses count. -/
theorem enabledAfterQueue_inner (hcount : countsMiss (getFork env.fTestNet pindex.nHeight) x.2 = true)
    (hx : x.1.queue.nCurrentSlot + 1 < x.1.queue.vStakerIDs.length) (h : advanceSlot env pindex x = .ok y) :
    y.1.enabledAfterQueue env pindex.nHeight = x.1.enabledAfterQueue env pindex.nHeight := by
  rw [advanceSlot_inner env pindex hx] at h
  cases h
  unfold enabledAfterQueue
  rw [passSlot_eq_missAll hcount (Nat.lt_of_succ_lt hx)]
  set r₀ := x.1.passSlot env pindex x.2
  set r₁ := ((r₀.setQueue { x.1.queue with nCurrentSlot := x.1.queue.nCurrentSlot + 1 }).setProduced
    false).checkPower env with hr₁
  have hsame : SameMiss r₀ r₁ := by
    obtain ⟨f, m, h⟩ := checkPower_frame env
      ((r₀.setQueue { x.1.queue with nCurrentSlot := x.1.queue.nCurrentSlot + 1 }).setProduced false)
    rw [hr₁, h]
    exact ⟨rfl, rfl, rfl, rfl⟩
  have hpend : r₁.pendingIDs = x.1.queue.vStakerIDs.drop (x.1.queue.nCurrentSlot + 1) := by
    simp [pendingIDs, hr₁, setProduced, setQueue]
  rw [hpend, enabledIDs_congr (SameMiss.missAll _ hsame).stakers]

/-- Walking to the end of the queue renews it once, with `enabledAfterQueue` slots. -/
theorem iterateE_renew (env : QPEnv) (pindex : CBlockIndex) : ∀ (k : Nat) (x : QPRegistry × Nat),
    x.1.queue.nCurrentSlot + (k + 1) = x.1.queue.vStakerIDs.length →
    countsMiss (getFork env.fTestNet pindex.nHeight) x.2 = true → x.1.enabledIDs ≠ [] →
      ∃ y, iterateE (advanceSlot env pindex) (k + 1) x = .ok y ∧ y.2 = x.2 + 1 ∧
        y.1.queue.nCurrentSlot = 0 ∧
        y.1.queue.vStakerIDs.length = x.1.enabledAfterQueue env pindex.nHeight ∧
        y.1.enabledIDs ≠ []
  | 0, x, hx, hcount, hen => by
    obtain ⟨y, hy, hn, hc, hl, he⟩ := advanceSlot_last env pindex (x := x) (by omega) hen
    refine ⟨y, by simp only [iterateE, hy], hn, hc, ?_, he⟩
    have hnil : x.1.queue.vStakerIDs.drop (x.1.queue.nCurrentSlot + 1) = [] :=
      List.drop_eq_nil_of_le (by omega)
    rw [hl, enabledAfterQueue, passSlot_eq_missAll hcount (show x.1.queue.nCurrentSlot < _ by omega),
      hnil]
    rfl
  | k + 1, x, hx, hcount, hen => by
    obtain ⟨z, hz, hzen⟩ := advanceSlot_total env pindex hen
    have hinner : x.1.queue.nCurrentSlot + 1 < x.1.queue.vStakerIDs.length := by omega
    have hafter := enabledAfterQueue_inner hcount hinner hz
    obtain ⟨z', hz', hn, hi, hc⟩ := iterateE_inner env pindex 1 x hinner
    have hzz : z' = z := by
      simp only [iterateE, hz, Except.ok.injEq] at hz'
      exact hz'.symm
    subst hzz
    obtain ⟨y, hy, hyn, hyc, hyl, hye⟩ :=
      iterateE_renew env pindex k z' (by rw [hc, hi]; omega) (hn ▸ hcount) hzen
    refine ⟨y, ?_, by omega, hyc, hyl.trans hafter, hye⟩
    rw [iterateE, hz]
    exact hy

theorem advanceSlot_counter (h : advanceSlot env pindex x = .ok y) : x.2 ≤ y.2 := by
  rcases advanceSlot_ok h with ⟨q, -, rfl⟩ | ⟨r, -, -, rfl⟩
  · exact Nat.le_refl _
  · exact Nat.le_succ _

theorem iterateE_counter (h : iterateE (advanceSlot env pindex) k x = .ok y) : x.2 ≤ y.2 :=
  iterateE_invariant (I := fun z : QPRegistry × Nat => x.2 ≤ z.2)
    (fun _ _ hI hb => Nat.le_trans hI (advanceSlot_counter hb)) k x y (Nat.le_refl _) h

def slotsLeft (r : QPRegistry) : Nat := r.queue.vStakerIDs.length - r.queue.nCurrentSlot

section

variable (hx : OnSlot (r, 0)) (hen : r.enabledIDs ≠ [])
  (hfork : Fork.qpos ≤ getFork env.fTestNet pindex.nHeight)

include hx hen hfork

theorem iterateE_first_renewal :
    ∃ y, iterateE (advanceSlot env pindex) r.slotsLeft (r, 0) = .ok y ∧ y.2 = 1 ∧
      y.1.queue.nCurrentSlot = 0 ∧
      y.1.queue.vStakerIDs.length = r.enabledAfterQueue env pindex.nHeight ∧
      y.1.enabledIDs ≠ [] := by
  have hx' : r.queue.nCurrentSlot < r.queue.vStakerIDs.length := hx
  obtain ⟨k, hk⟩ : ∃ k, r.slotsLeft = k + 1 := ⟨r.slotsLeft - 1, by unfold slotsLeft; omega⟩
  rw [hk]
  exact iterateE_renew env pindex k (r, 0) (by unfold slotsLeft at hk; dsimp only; omega)
    (by simp [countsMiss, hfork]) hen

theorem counter_le_one (hk : k < r.slotsLeft + r.enabledAfterQueue env pindex.nHeight)
    (h : iterateE (advanceSlot env pindex) k (r, 0) = .ok y) : y.2 ≤ 1 := by
  by_cases hlt : k < r.slotsLeft
  · obtain ⟨z, hz, hn, -, -⟩ := iterateE_inner env pindex k (r, 0)
      (by unfold slotsLeft at hlt; dsimp only; omega)
    rw [hz] at h
    cases h
    rw [hn]
    exact Nat.zero_le 1
  · obtain ⟨z, hz, hn, hc, hl, -⟩ := iterateE_first_renewal hx hen hfork
    obtain ⟨j, rfl⟩ := Nat.exists_eq_add_of_le (Nat.not_lt.1 hlt)
    rw [iterateE_add_of_ok hz] at h
    obtain ⟨w, hw, hwn, -, -⟩ := iterateE_inner env pindex j z (by omega)
    rw [hw] at h
    cases h
    omega

theorem counter_eq_two : ∃ y, iterateE (advanceSlot env pindex)
    (r.slotsLeft + r.enabledAfterQueue env pindex.nHeight) (r, 0) = .ok y ∧ y.2 = 2 := by
  obtain ⟨z, hz, hn, hc, hl, he⟩ := iterateE_first_renewal hx hen hfork
  have hOn : OnSlot z := (iterateE_clock _ hx hz).1
  have hpos : z.1.queue.nCurrentSlot < z.1.queue.vStakerIDs.length := hOn
  obtain ⟨k, hk⟩ : ∃ k, r.enabledAfterQueue env pindex.nHeight = k + 1 :=
    ⟨r.enabledAfterQueue env pindex.nHeight - 1, by omega⟩
  obtain ⟨y, hy, hyn, -⟩ := iterateE_renew env pindex k z (by omega)
    (by simp [countsMiss, hfork, hn]) he
  refine ⟨y, ?_, by omega⟩
  rw [iterateE_add_of_ok hz, hk]
  exact hy

end

def Apart (d : Nat) (x y : QPRegistry × Nat) : Prop := SameState x.1 y.1 ∧ x.2 = y.2 + d

theorem apart_advanceSlot (h : Apart d x y) (hcount : countsMiss (getFork env.fTestNet pindex.nHeight) x.2 =
      countsMiss (getFork env.fTestNet pindex.nHeight) y.2) :
    ResultRel SameState (Apart d) (advanceSlot env pindex x) (advanceSlot env pindex y) := by
  obtain ⟨hstate, hd⟩ := h
  obtain ⟨m, s, hy⟩ := (sameState_passSlot env pindex hstate hcount).exists_withMode
  have hnext := nextSlot_override env pindex x.2 y.2 (x.1.passSlot env pindex x.2)
    ⟨some m, some s, none, none⟩
  rw [← withMode_eq_override, ← hy] at hnext
  unfold advanceSlot
  obtain ⟨e, e', hx', hy', he⟩ | ⟨x', y', hx', hy', hstate', hcount'⟩ := hnext.cases
  · rw [hx', hy']
    exact he ▸ sameState_withMode e m s
  · rw [hx', hy']
    have hsame : SameState x'.1 y'.1 := hstate' ▸ sameState_withMode x'.1 m s
    refine ⟨sameState_checkPower env (sameState_setProduced hsame false), ?_⟩
    dsimp only
    omega

theorem apart_iterateE : ∀ (k : Nat) {x y : QPRegistry × Nat}, Apart d x y →
      (∀ j < k, ∀ z, iterateE (advanceSlot env pindex) j x = .ok z →
        countsMiss (getFork env.fTestNet pindex.nHeight) z.2 =
          countsMiss (getFork env.fTestNet pindex.nHeight) (z.2 - d)) →
      ResultRel SameState (Apart d) (iterateE (advanceSlot env pindex) k x)
        (iterateE (advanceSlot env pindex) k y)
  | 0, _, _, h, _ => h
  | k + 1, x, y, h, hcount => by
    have hfirst := hcount 0 (Nat.succ_pos k) x rfl
    rw [h.2, Nat.add_sub_cancel, ← h.2] at hfirst
    rw [iterateE, iterateE]
    obtain ⟨e, e', hx, hy, he⟩ | ⟨x', y', hx, hy, hnext⟩ := (apart_advanceSlot h hfirst).cases
    · rw [hx, hy]
      exact he
    · rw [hx, hy]
      refine apart_iterateE k hnext fun j hj z hz => hcount (j + 1) (by omega) z ?_
      simp only [iterateE, hx, hz]

theorem countsMiss_of_lt (h : nFork < .feeless2) (n n' : Nat) : countsMiss nFork n = countsMiss nFork n' := by
  simp [countsMiss, h]

theorem countsMiss_of_le_one {n' : Nat} (h : n ≤ 1) (h' : n' ≤ 1) :
    countsMiss nFork n = countsMiss nFork n' := by
  simp [countsMiss, h, h']

theorem countsMiss_of_two_le (hfork : Fork.feeless2 ≤ nFork) (h : 2 ≤ n) : countsMiss nFork n = false := by
  have h1 : ¬ nFork < .feeless2 := Fork.not_lt.2 hfork
  have h2 : ¬ n ≤ 1 := by omega
  simp [countsMiss, h1, h2]

theorem advanceSlot_mapStakers (h : advanceSlot env pindex x = .ok y) :
    y.1.mapStakers = (x.1.passSlot env pindex x.2).mapStakers := by
  obtain ⟨q, hq⟩ := advanceSlot_renewed h
  rw [hq]
  rfl

theorem iterateE_frozen (hfork : Fork.feeless2 ≤ getFork env.fTestNet pindex.nHeight)
    (hx : 2 ≤ x.2) (h : iterateE (advanceSlot env pindex) k x = .ok y) : y.1.mapStakers = x.1.mapStakers := by
  refine (iterateE_invariant
    (I := fun z : QPRegistry × Nat => 2 ≤ z.2 ∧ z.1.mapStakers = x.1.mapStakers)
    (fun z w hz hb => ?_) k x y ⟨hx, rfl⟩ h).2
  refine ⟨Nat.le_trans hz.1 (advanceSlot_counter hb), ?_⟩
  rw [advanceSlot_mapStakers hb, ← hz.2, passSlot, countsMiss_of_two_le hfork hz.1]
  split <;> rfl

theorem passSlot_missed (env : QPEnv) (pindex : CBlockIndex) (n : Nat) (hs : r.mapStakers[nID]? = some s) :
    ∃ s', (r.passSlot env pindex n).mapStakers[nID]? = some s' ∧
      (s'.nBlocksMissed = s.nBlocksMissed ∨ s'.nBlocksMissed = s.nBlocksMissed + 1) := by
  unfold passSlot
  split
  · exact ⟨s, hs, .inl rfl⟩
  · split
    · rcases stakerMissedBlock_cases env r r.queue.getCurrentID pindex.nHeight with
        ⟨-, heq⟩ | ⟨t, t', hcur, -, heq, hm, -⟩
      · rw [heq]
        exact ⟨s, hs, .inl rfl⟩
      · rw [heq]
        simp only [recordSlot, putStaker, pushPower, getElem?_insert,
          Std.LawfulEqCmp.compare_eq_iff_eq]
        by_cases hid : r.queue.getCurrentID = nID
        · have ht := (getStakerInternal_eq_some.1 hcur).2
          rw [hid, hs] at ht
          cases ht
          exact ⟨t', by simp [hid], .inr hm.missed⟩
        · exact ⟨s, by simp [hid, hs], .inl rfl⟩
    · exact ⟨s, hs, .inl rfl⟩

theorem iterateE_missed : ∀ (k : Nat) {x y : QPRegistry × Nat} {s : QPStaker}, x.1.mapStakers[nID]? = some s →
      iterateE (advanceSlot env pindex) k x = .ok y →
      ∃ s' d, y.1.mapStakers[nID]? = some s' ∧ d ≤ k ∧
        s'.nBlocksMissed = s.nBlocksMissed + UInt32.ofNat d
  | 0, x, y, s, hs, h => by cases h; exact ⟨s, 0, hs, Nat.le_refl 0, by simp⟩
  | k + 1, x, y, s, hs, h => by
    obtain ⟨z, hz, hrest⟩ := iterateE_succ_ok h
    obtain ⟨t, ht, hmiss⟩ := passSlot_missed env pindex x.2 hs
    rw [← advanceSlot_mapStakers hz] at ht
    obtain ⟨s', d, hs', hd, heq⟩ := iterateE_missed k ht hrest
    rcases hmiss with hsame | hone
    · exact ⟨s', d, hs', by omega, by rw [heq, hsame]⟩
    · refine ⟨s', d + 1, hs', by omega, ?_⟩
      rw [heq, hone, UInt32.ofNat_add]
      grind

theorem QueueInv.serves_current (hi : QueueInv env r) (hOn : r.queue.nCurrentSlot < r.queue.vStakerIDs.length)
    (hp : r.fCurrentBlockWasProduced = false) : r.Serves r.queue.getCurrentID := by
  refine hi.pending r.queue.nCurrentSlot _ ?_ (.inr ⟨rfl, hp⟩)
  rw [List.getElem?_eq_getElem hOn, QPQueue.getCurrentID, List.getD_eq_getElem _ _ hOn]

theorem passSlot_current (hserve : r.Serves r.queue.getCurrentID) (hp : r.fCurrentBlockWasProduced = false)
    (hcount : countsMiss (getFork env.fTestNet pindex.nHeight) n = true) :
    ∃ s s', r.mapStakers[r.queue.getCurrentID]? = some s ∧
      (r.passSlot env pindex n).mapStakers[r.queue.getCurrentID]? = some s' ∧
      s'.nBlocksMissed = s.nBlocksMissed + 1 := by
  obtain ⟨s, hs, hq⟩ := hserve
  obtain ⟨s', heq, hm, -⟩ := stakerMissedBlock_spec env pindex.nHeight hs hq
  refine ⟨s, s', (getStakerInternal_eq_some.1 hs).2, ?_, hm.missed⟩
  simp [passSlot, hp, hcount, heq, recordSlot, putStaker]

def DiffMissed (r r' : QPRegistry) : Prop :=
  ∃ (nID : Nat) (s s' : QPStaker), r.mapStakers[nID]? = some s ∧ r'.mapStakers[nID]? = some s' ∧
    s.nBlocksMissed ≠ s'.nBlocksMissed

theorem DiffMissed.symm (h : DiffMissed r r') : DiffMissed r' r := by
  obtain ⟨nID, s, s', hs, hs', hne⟩ := h
  exact ⟨nID, s', s, hs', hs, hne.symm⟩

theorem DiffMissed.not_sameState (h : DiffMissed r r') : ¬ SameState r r' := by
  intro hsame
  obtain ⟨nID, s, s', hs, hs', hne⟩ := h
  obtain ⟨m, t, rfl⟩ := hsame.exists_withMode
  rw [show (r.withMode m t).mapStakers = r.mapStakers from rfl, hs] at hs'
  cases hs'
  exact hne rfl

theorem DiffMissed.of_sameState {r₁ r₂ : QPRegistry} (h : DiffMissed r₁ r)
    (hsame : SameState r₁ r₂) : DiffMissed r₂ r := by
  obtain ⟨m, t, rfl⟩ := hsame.exists_withMode
  exact h

theorem add_ofNat_ne {m : UInt32} (h0 : 0 < d) (hd : d < 2 ^ 32) : m ≠ m + UInt32.ofNat d := by
  intro h
  have hz : UInt32.ofNat d = 0 := by grind
  have := congrArg UInt32.toNat hz
  simp at this
  omega

/-- From equal states, one call past its first new queue and the other not: the second counts a miss
that the first does not. -/
theorem iterateE_diverge
    (hfork : Fork.feeless2 ≤ getFork env.fTestNet pindex.nHeight) {x' y' : QPRegistry × Nat}
    (hsame : SameState x.1 y.1) (hx : 2 ≤ x.2) (hy : y.2 ≤ 1) (hi : QueueInv env y.1)
    (hOn : OnSlot y) (hp : y.1.fCurrentBlockWasProduced = false) (hk0 : 0 < k)
    (hk : k < 2 ^ 32) (hx' : iterateE (advanceSlot env pindex) k x = .ok x')
    (hy' : iterateE (advanceSlot env pindex) k y = .ok y') : DiffMissed x'.1 y'.1 := by
  obtain ⟨k, rfl⟩ := Nat.exists_eq_add_of_lt hk0
  rw [Nat.zero_add] at hx' hy' hk
  have hcount : countsMiss (getFork env.fTestNet pindex.nHeight) y.2 = true := by
    have hq : Fork.qpos ≤ getFork env.fTestNet pindex.nHeight :=
      Nat.le_trans (by decide) (Fork.le_def.1 hfork)
    simp [countsMiss, hq, hy]
  obtain ⟨s, s₁, hs, hs₁, hone⟩ := passSlot_current (hi.serves_current hOn hp) hp hcount
  obtain ⟨z, hz, hrest⟩ := iterateE_succ_ok hy'
  rw [← advanceSlot_mapStakers hz] at hs₁
  obtain ⟨s', d, hs', hd, heq⟩ := iterateE_missed k hs₁ hrest
  refine ⟨y.1.queue.getCurrentID, s, s', ?_, hs', ?_⟩
  · obtain ⟨m, t, hm⟩ := hsame.exists_withMode
    rw [iterateE_frozen hfork hx hx']
    rw [hm] at hs
    rw [hm]
    exact hs
  · have hsum : s'.nBlocksMissed = s.nBlocksMissed + UInt32.ofNat (d + 1) := by
      rw [heq, hone, UInt32.ofNat_add]
      grind
    rw [hsum]
    exact add_ofNat_ne (Nat.succ_pos d) (by omega)

theorem produceBlock_missed (env : QPEnv) (pindexPrev pindex : CBlockIndex)
    (hs : r.mapStakers[nID]? = some s) :
    Either (fun r' => ∃ s', r'.mapStakers[nID]? = some s' ∧ s'.nBlocksMissed = s.nBlocksMissed)
      (r.produceBlock env pindexPrev pindex) := by
  refine produceBlock_rule ⟨s, hs, rfl⟩ (fun r' _ hprod => ?_) fun r' hr' => ?_
  · obtain ⟨t, t', ht, -, hp⟩ := stakerProducedBlock_spec hprod
    change ∃ s', r'.mapStakers[nID]? = some s' ∧ _
    rw [hp.stakers, getElem?_insert]
    by_cases hid : pindex.nStakerID = nID
    · have ht := (getStakerInternal_eq_some.1 ht).2
      rw [hid, hs] at ht
      cases ht
      exact ⟨t', by simp [hid], hp.missed⟩
    · exact ⟨s, by simp [hid, hs], rfl⟩
  · obtain ⟨s', hs', hm⟩ := hr'
    refine ⟨if s'.isQualified then s'.sawBlock else s', ?_, ?_⟩
    · simp [updateCertifiedNodesList, sawBlockAll, hs']
    · rw [← hm]
      split <;> rfl

theorem finishBlock_missed (env : QPEnv) (hids : IdsInOrder r) (now : Int)
    (fJustCheck : Bool) (pindexPrev pindex : CBlockIndex) (hs : r.mapStakers[nID]? = some s) :
    ∃ s', (r.finishBlock env now fJustCheck pindexPrev pindex).1.mapStakers[nID]? = some s' ∧
      s'.nBlocksMissed = s.nBlocksMissed := by
  have hget : r.getStakerInternal nID = some s :=
    getStakerInternal_eq_some.2 ⟨hids nID s hs, hs⟩
  refine finishBlock_rule (P := fun r' => ∃ s', r'.mapStakers[nID]? = some s' ∧
    s'.nBlocksMissed = s.nBlocksMissed) (fun r' hops => ?_) (fun r' hr' => ?_) fun r' hr' => hr'
  · obtain ⟨s', hs', hm, -⟩ := hops.opsFrame.stakers nID s hget
    exact ⟨s', (getStakerInternal_eq_some.1 hs').2, hm⟩
  · obtain ⟨s₁, hs₁, hm₁⟩ := hr'
    rw [← hm₁]
    exact produceBlock_missed env pindexPrev pindex hs₁

theorem DiffMissed.finishBlock (h : DiffMissed r r')
    (hids : IdsInOrder r) (hids' : IdsInOrder r') (now : Int) (fJustCheck : Bool)
    (pindexPrev pindex : CBlockIndex) : DiffMissed (r.finishBlock env now fJustCheck pindexPrev pindex).1
      (r'.finishBlock env now fJustCheck pindexPrev pindex).1 := by
  obtain ⟨nID, s, s', hs, hs', hne⟩ := h
  obtain ⟨t, ht, hm⟩ := finishBlock_missed env hids now fJustCheck pindexPrev pindex hs
  obtain ⟨t', ht', hm'⟩ := finishBlock_missed env hids' now fJustCheck pindexPrev pindex hs'
  exact ⟨nID, t, t', ht, ht', fun heq => hne (by rw [← hm, ← hm', heq])⟩

end Stealth.QPRegistry

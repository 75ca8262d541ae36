import Stealth.Qpos.Runs
import Stealth.Qpos.Solo

/-! The slot windows that the blocks of a run fall in. A registry never goes back to an earlier one. -/

namespace Stealth.QPRegistry

open Loop

variable {r r' : QPRegistry} {k n : Nat} {env : QPEnv} {p b : CBlockIndex} {s : QPRegistry × Nat}
  {nTime : UInt32} {now : Int} {fJustCheck : Bool} {seen : List (Nat × Nat)}

/-- The registry has left its window, and the new one has no block. -/
structure Left (r : QPRegistry) (nQueues : Nat) (r' : QPRegistry) : Prop where
  later : 0 < nQueues ∨ r.queue.nCurrentSlot < r'.queue.nCurrentSlot
  produced : r'.fCurrentBlockWasProduced = false
  started : r'.queue.isEmpty = false

/-- The registry is still in its window. -/
structure Stayed (r r' : QPRegistry) : Prop where
  slot : r'.queue.nCurrentSlot = r.queue.nCurrentSlot
  produced : r'.fCurrentBlockWasProduced = r.fCurrentBlockWasProduced
  started : r'.queue.isEmpty = r.queue.isEmpty

def Moved (r : QPRegistry) (nQueues : Nat) (r' : QPRegistry) : Prop :=
  Left r nQueues r' ∨ nQueues = 0 ∧ Stayed r r'

theorem Stayed.of_eq (hqueue : r'.queue = r.queue)
    (hproduced : r'.fCurrentBlockWasProduced = r.fCurrentBlockWasProduced) : Stayed r r' :=
  ⟨by rw [hqueue], hproduced, by rw [hqueue]⟩

theorem Stayed.trans {r'' : QPRegistry} (h : Stayed r r') (h' : Stayed r' r'') : Stayed r r'' :=
  ⟨h'.slot.trans h.slot, h'.produced.trans h.produced, h'.started.trans h.started⟩

theorem Left.moved {r'' : QPRegistry} {k' : Nat} (h : Left r k r') (h' : Moved r' k' r'') :
    Left r (k + k') r'' := by
  rcases h' with hleft | ⟨rfl, hstayed⟩
  · refine ⟨?_, hleft.produced, hleft.started⟩
    have hlater := h.later
    have hlater' := hleft.later
    omega
  · refine ⟨?_, hstayed.produced.trans h.produced, hstayed.started.trans h.started⟩
    rw [hstayed.slot]
    exact h.later

/-- An iteration that ends the queue in force and starts the next one. -/
def startsQueue (env : QPEnv) (p : CBlockIndex) (s : QPRegistry × Nat) : Bool :=
  s.1.queue.incrementSlot.isNone && (advanceSlot env p s).isOk

theorem isEmpty_eq_false {q : QPQueue} (h : q.vStakerIDs ≠ []) : q.isEmpty = false := by
  rw [QPQueue.isEmpty]
  exact List.isEmpty_eq_false_iff.2 h

theorem left_advanceSlot {s' : QPRegistry × Nat}
    (h : advanceSlot env p s = .ok s') : Left s.1 (if startsQueue env p s then 1 else 0) s'.1 := by
  have hproduced := advanceSlot_produced h
  rcases advanceSlot_ok h with ⟨q, hq, rfl⟩ | ⟨r, hq, hr, rfl⟩
  · rw [passSlot_queue] at hq
    obtain ⟨hlt, rfl⟩ := incrementSlot_eq_some hq
    refine ⟨.inr ?_, hproduced, ?_⟩
    · rw [checkPower_queue]
      exact Nat.lt_succ_self _
    · rw [checkPower_queue]
      exact isEmpty_eq_false (List.ne_nil_of_length_pos (Nat.zero_lt_of_lt hlt))
  · rw [passSlot_queue] at hq
    refine ⟨.inl ?_, hproduced, ?_⟩
    · simp [startsQueue, hq, h, Except.isOk, Except.toBool]
    · rw [checkPower_queue]
      exact isEmpty_eq_false (newQueue_spec hr).2.2.2.1

theorem stayed_advanceSlot
    (h : advanceSlot env p s = .error r) : startsQueue env p s = false ∧ Stayed s.1 r := by
  constructor
  · simp [startsQueue, h, Except.isOk, Except.toBool]
  · obtain ⟨-, -, rfl⟩ := advanceSlot_error h
    exact .of_eq (passSlot_queue ..) (passSlot_produced ..)

theorem moved_whileLoop (env : QPEnv) (nTime : UInt32) (p : CBlockIndex) : ∀ (fuel : Nat)
    (s : QPRegistry × Nat), match whileLoop (slotHasPassed nTime) (advanceSlot env p) fuel s with
    | .error r => Moved s.1
        ((visited (slotHasPassed nTime) (advanceSlot env p) fuel s).countP (startsQueue env p)) r
    | .ok t => Moved s.1
        ((visited (slotHasPassed nTime) (advanceSlot env p) fuel s).countP (startsQueue env p)) t.1
  | 0, s => .inr ⟨rfl, .of_eq rfl rfl⟩
  | fuel + 1, s => by
    cases hc : slotHasPassed nTime s with
    | false =>
      rw [whileLoop_of_not hc]
      simp only [visited, hc, Bool.false_eq_true, if_false]
      exact .inr ⟨rfl, .of_eq rfl rfl⟩
    | true =>
      cases hb : advanceSlot env p s with
      | error r =>
        obtain ⟨hstarts, hstayed⟩ := stayed_advanceSlot hb
        rw [whileLoop_error hc hb]
        simp only [visited, hc, hb, if_true, List.countP_cons, hstarts]
        exact .inr ⟨rfl, hstayed⟩
      | ok s' =>
        have ih := moved_whileLoop env nTime p fuel s'
        have hleft := left_advanceSlot hb
        rw [whileLoop_step hc hb]
        simp only [visited, hc, hb, if_true, List.countP_cons]
        rw [Nat.add_comm]
        split at ih
        · exact .inl (hleft.moved ih)
        · exact .inl (hleft.moved ih)

theorem moved_advanceLoop (env : QPEnv) (nTime : UInt32) (p : CBlockIndex) (s : QPRegistry × Nat) : Moved s.1
      ((visited (slotHasPassed nTime) (advanceSlot env p) advanceFuel s).countP (startsQueue env p))
      (match advanceLoop env nTime p s with
        | .error r' => (r', false)
        | .ok (r', _) => (r', true)).1 := by
  have hloop := moved_whileLoop env nTime p advanceFuel s
  rw [advanceLoop]
  cases h : whileLoop (slotHasPassed nTime) (advanceSlot env p) advanceFuel s with
  | error r =>
    rw [h] at hloop
    exact hloop
  | ok t =>
    rw [h] at hloop
    exact hloop

theorem left_whileLoop {t : QPRegistry × Nat} {fuel : Nat} (hc : slotHasPassed nTime s = true)
    (h : whileLoop (slotHasPassed nTime) (advanceSlot env p) (fuel + 1) s = .ok t) :
    Left s.1 ((visited (slotHasPassed nTime) (advanceSlot env p) (fuel + 1) s).countP
      (startsQueue env p)) t.1 := by
  cases hb : advanceSlot env p s with
  | error r =>
    rw [whileLoop_error hc hb] at h
    cases h
  | ok s' =>
    rw [whileLoop_step hc hb] at h
    have hrest := moved_whileLoop env nTime p fuel s'
    rw [h] at hrest
    simp only [visited, hc, hb, if_true, List.countP_cons]
    rw [Nat.add_comm]
    exact (left_advanceSlot hb).moved hrest

def queuesStarted (env : QPEnv) (nTime : UInt32) (p : CBlockIndex) (r : QPRegistry) : Nat :=
  if Fork.qpos ≤ getFork env.fTestNet (p.nHeight + 1) then
    match r.startQueue env p with
    | none => 0
    | some s =>
      (if r.queue.isEmpty then 1 else 0) +
        (visited (slotHasPassed nTime) (advanceSlot env p) advanceFuel s).countP (startsQueue env p)
  else 0

def Fresh (r : QPRegistry) : Prop := r.queue.isEmpty = true → r.fCurrentBlockWasProduced = false

theorem left_startQueue
    (hfresh : Fresh r) (hempty : r.queue.isEmpty = true) (h : r.startQueue env p = some s) :
    Left r 1 s.1 := by
  rw [startQueue, if_pos hempty] at h
  obtain ⟨r', hr', rfl⟩ := Option.map_eq_some_iff.1 h
  obtain ⟨-, -, -, hne, -, -, -, -, hproduced⟩ := newQueue_spec hr'
  exact ⟨.inl Nat.one_pos, hproduced.trans (hfresh hempty), isEmpty_eq_false hne⟩

theorem startQueue_of_not_isEmpty (h : r.queue.isEmpty = false) : r.startQueue env p = some (r, 0) := by
  rw [startQueue, if_neg (Bool.eq_false_iff.1 h)]

theorem moved_advanceTime (env : QPEnv) (p : CBlockIndex) (hfresh : Fresh r)
    (nTime : UInt32) : Moved r (queuesStarted env nTime p r) (r.advanceTime env nTime p).1 := by
  rw [queuesStarted, advanceTime]
  split
  · cases hs : r.startQueue env p with
    | none => exact .inr ⟨rfl, .of_eq rfl rfl⟩
    | some s =>
      have hloop := moved_advanceLoop env nTime p s
      dsimp only
      cases hempty : r.queue.isEmpty with
      | true =>
        rw [if_pos rfl]
        exact .inl ((left_startQueue hfresh hempty hs).moved hloop)
      | false =>
        rw [startQueue_of_not_isEmpty hempty] at hs
        cases hs
        rw [if_neg Bool.false_ne_true, Nat.zero_add]
        exact hloop
  · exact .inr ⟨rfl, .of_eq rfl rfl⟩

theorem left_advanceTime (hfresh : Fresh r) (hfork : Fork.qpos ≤ getFork env.fTestNet (p.nHeight + 1))
    (hpass : r.queue.isEmpty = true ∨ r.queue.getCurrentSlotEnd < nTime)
    (hok : (r.advanceTime env nTime p).2 = true) :
    Left r (queuesStarted env nTime p r) (r.advanceTime env nTime p).1 := by
  cases hempty : r.queue.isEmpty with
  | true =>
    rw [queuesStarted, if_pos hfork]
    rw [advanceTime, if_pos hfork] at hok ⊢
    cases hs : r.startQueue env p with
    | none =>
      rw [hs] at hok
      cases hok
    | some s =>
      dsimp only
      rw [hempty, if_pos rfl]
      exact (left_startQueue hfresh hempty hs).moved (moved_advanceLoop env nTime p s)
  | false =>
    have hlt : r.queue.getCurrentSlotEnd < nTime := by
      rcases hpass with h | h
      · rw [hempty] at h
        cases h
      · exact h
    rw [queuesStarted, if_pos hfork]
    rw [advanceTime, if_pos hfork] at hok ⊢
    rw [startQueue_of_not_isEmpty hempty] at hok ⊢
    dsimp only at hok ⊢
    rw [hempty, if_neg Bool.false_ne_true, Nat.zero_add]
    rw [advanceLoop] at hok ⊢
    obtain ⟨fuel, hfuel⟩ : ∃ fuel, advanceFuel = fuel + 1 := ⟨advanceFuel - 1, rfl⟩
    rw [hfuel] at hok ⊢
    cases hloop : whileLoop (slotHasPassed nTime) (advanceSlot env p) (fuel + 1) (r, 0) with
    | error r' =>
      rw [hloop] at hok
      cases hok
    | ok t => exact left_whileLoop (s := (r, 0)) (decide_eq_true hlt) hloop

theorem advanceTime_of_not_lt (env : QPEnv) (p : CBlockIndex)
    (hempty : r.queue.isEmpty = false) (h : ¬ r.queue.getCurrentSlotEnd < nTime) :
    (r.advanceTime env nTime p).1 = r ∧ queuesStarted env nTime p r = 0 := by
  have hc : slotHasPassed nTime (r, 0) = false := decide_eq_false h
  obtain ⟨fuel, hfuel⟩ : ∃ fuel, advanceFuel = fuel + 1 := ⟨advanceFuel - 1, rfl⟩
  rw [advanceTime, queuesStarted, startQueue_of_not_isEmpty hempty]
  split
  · dsimp only
    rw [advanceLoop, hfuel, whileLoop_of_not hc, hempty]
    exact ⟨rfl, by simp [visited, hc]⟩
  · exact ⟨rfl, rfl⟩

theorem stayed_crossFork (env : QPEnv) (nFork : Fork) (r : QPRegistry) : Stayed r (r.crossFork env nFork) ∧
      (r.crossFork env nFork).queue = r.queue ∧
      (r.crossFork env nFork).nHeightExitedReplay = r.nHeightExitedReplay := by
  obtain ⟨f, heq, -⟩ := crossFork_eq env nFork r
  rw [heq]
  exact ⟨.of_eq rfl rfl, rfl, rfl⟩

theorem stayed_beforeAdvance (env : QPEnv) (nSnapshotType : SnapshotType) (p b : CBlockIndex)
    (db : SnapshotDB) (r : QPRegistry) : Stayed r (r.beforeAdvance env nSnapshotType p b db) ∧
      (r.beforeAdvance env nSnapshotType p b db).queue = r.queue ∧
      (r.beforeAdvance env nSnapshotType p b db).nHeightExitedReplay = r.nHeightExitedReplay := by
  obtain ⟨hstayed, hqueue, hmode⟩ := stayed_crossFork env (getFork env.fTestNet b.nHeight) r
  rw [beforeAdvance]
  generalize r.crossFork env (getFork env.fTestNet b.nHeight) = r₁ at hstayed hqueue hmode
  rw [takeSnapshot]
  dsimp only
  split
  · split <;> exact ⟨hstayed.trans (.of_eq rfl rfl), hqueue, hmode⟩
  · split <;> exact ⟨hstayed, hqueue, hmode⟩

theorem produced_finishBlock (hfork : Fork.qpos ≤ getFork env.fTestNet b.nHeight)
    (h : r.finishBlock env now fJustCheck p b = (r', .accepted)) :
    r'.queue.nCurrentSlot = r.queue.nCurrentSlot ∧ r'.fCurrentBlockWasProduced = true ∧
      r'.queue.isEmpty = false ∧ (r.fCurrentBlockWasProduced && r.outOfReplayMode) = false := by
  obtain ⟨r₁, r₂, hops, hprod, rfl⟩ := finishBlock_accepted h
  obtain ⟨hslot, hreplay, r₃, hr₃, rfl⟩ := produceBlock_ok hfork hprod
  have hframe := (opsFrame_applyBlockOps env now fJustCheck b r).1 r₁ hops
  obtain ⟨s, s', -, -, hproduced⟩ := stakerProducedBlock_spec hr₃
  have hqueue : r₃.queue = r.queue := hproduced.queue.trans hframe.queue
  have hne : r.queue.vStakerIDs ≠ [] := by
    intro hnil
    rw [hframe.queue, QPQueue.getSlotForID, hnil] at hslot
    cases hslot
  refine ⟨?_, hproduced.produced, ?_, ?_⟩
  · change r₃.queue.nCurrentSlot = _
    rw [hqueue]
  · exact isEmpty_eq_false (hqueue ▸ hne)
  · rw [← hreplay, hframe.produced, outOfReplayMode, outOfReplayMode, hframe.replay]

theorem stayed_finishBlock (hfork : ¬ Fork.qpos ≤ getFork env.fTestNet b.nHeight)
    (h : r.finishBlock env now fJustCheck p b = (r', .accepted)) : Stayed r r' := by
  obtain ⟨r₁, r₂, hops, hprod, rfl⟩ := finishBlock_accepted h
  have hframe := (opsFrame_applyBlockOps env now fJustCheck b r).1 r₁ hops
  rw [produceBlock, if_neg hfork] at hprod
  cases hprod
  exact .of_eq hframe.queue hframe.produced

def Update.queuesStarted (env : QPEnv) (r : QPRegistry) : Update → Nat
  | .time nTime pindex => r.queuesStarted env nTime pindex
  | .block _ nSnapshotType _ pindexPrev pindex db =>
    (r.beforeAdvance env nSnapshotType pindexPrev pindex db).queuesStarted env pindex.nTime pindexPrev
  | .exitReplay | .enterReplay | .sync _ => 0

def Update.isQPoS (env : QPEnv) : Update → Bool
  | .block _ _ _ _ pindex _ => decide (Fork.qpos ≤ getFork env.fTestNet pindex.nHeight)
  | _ => false

/-- The windows that the qPoS blocks of a run fall in, after `nQueues` queues. -/
def windows (env : QPEnv) : Nat → QPRegistry → List Update → List (Nat × Nat)
  | _, _, [] => []
  | nQueues, r, u :: us =>
    match r.update env u with
    | none => []
    | some r' =>
      let n := nQueues + u.queuesStarted env r
      if u.isQPoS env then (n, r'.queue.nCurrentSlot) :: windows env n r' us
      else windows env n r' us

def Update.Extends : Update → Prop
  | .block _ _ _ pindexPrev pindex _ => pindex.nHeight = pindexPrev.nHeight + 1
  | _ => True

/-- A block that a registry in replay mode gets for a slot that has its block already. -/
def Update.Repeats (env : QPEnv) (r : QPRegistry) : Update → Prop
  | .block _ _ _ _ pindex _ =>
    Fork.qpos ≤ getFork env.fTestNet pindex.nHeight ∧ r.isInReplayMode = true ∧
      r.fCurrentBlockWasProduced = true ∧ pindex.nTime ≤ r.queue.getCurrentSlotEnd
  | _ => False

def NoRepeats (env : QPEnv) : QPRegistry → List Update → Prop
  | _, [] => True
  | r, u :: us => ¬ u.Repeats env r ∧ ∀ r', r.update env u = some r' → NoRepeats env r' us

/-- What the windows so far say about a registry. -/
structure Tracks (nQueues : Nat) (r : QPRegistry) (seen : List (Nat × Nat)) : Prop where
  before : ∀ w ∈ seen, w.1 < nQueues ∨ w.1 = nQueues ∧ w.2 ≤ r.queue.nCurrentSlot
  current : (nQueues, r.queue.nCurrentSlot) ∈ seen ↔ r.fCurrentBlockWasProduced = true
  fresh : Fresh r

theorem Tracks.stayed (h : Tracks n r seen) (hs : Stayed r r') : Tracks n r' seen := by
  refine ⟨?_, ?_, ?_⟩
  · rw [hs.slot]
    exact h.before
  · rw [hs.slot, hs.produced]
    exact h.current
  · rw [Fresh, hs.started, hs.produced]
    exact h.fresh

theorem Tracks.later (h : Tracks n r seen) (hl : Left r k r') :
    ∀ w ∈ seen, w.1 < n + k ∨ w.1 = n + k ∧ w.2 < r'.queue.nCurrentSlot := by
  intro w hw
  have hbefore := h.before w hw
  have hlater := hl.later
  omega

theorem Tracks.not_mem (h : Tracks n r seen) (hl : Left r k r') : (n + k, r'.queue.nCurrentSlot) ∉ seen := by
  intro hmem
  have hlater := h.later hl _ hmem
  dsimp only at hlater
  omega

theorem Tracks.left (h : Tracks n r seen) (hl : Left r k r') : Tracks (n + k) r' seen := by
  refine ⟨fun w hw => ?_, ?_, fun _ => hl.produced⟩
  · have hlater := h.later hl w hw
    omega
  · rw [hl.produced]
    exact iff_of_false (h.not_mem hl) Bool.false_ne_true

theorem Tracks.moved (h : Tracks n r seen) (hm : Moved r k r') : Tracks (n + k) r' seen := by
  rcases hm with hl | ⟨rfl, hs⟩
  · exact h.left hl
  · exact h.stayed hs

theorem Tracks.take (h : Tracks n r seen) (hslot : r'.queue.nCurrentSlot = r.queue.nCurrentSlot)
    (hproduced : r'.fCurrentBlockWasProduced = true) (hstarted : r'.queue.isEmpty = false) :
    Tracks n r' ((n, r'.queue.nCurrentSlot) :: seen) := by
  refine ⟨?_, ?_, ?_⟩
  · intro w hw
    rcases List.mem_cons.1 hw with rfl | hw
    · exact .inr ⟨rfl, Nat.le_refl _⟩
    · rw [hslot]
      exact h.before w hw
  · exact iff_of_true (List.mem_cons_self ..) hproduced
  · intro hempty
    rw [hstarted] at hempty
    cases hempty

theorem isInReplayMode_eq (r : QPRegistry) : r.isInReplayMode = !r.outOfReplayMode := by
  simp [isInReplayMode, outOfReplayMode, bne]

theorem Tracks.block (h : Tracks n r seen) {nSnapshotType : SnapshotType}
    {db : SnapshotDB} (hext : b.nHeight = p.nHeight + 1) (hfork : Fork.qpos ≤ getFork env.fTestNet b.nHeight)
    (hu : (r.updateOnNewBlock env now nSnapshotType fJustCheck p b db).2 = (r', .accepted)) :
    let n' := n + (r.beforeAdvance env nSnapshotType p b db).queuesStarted env b.nTime p
    ((n', r'.queue.nCurrentSlot) ∉ seen ↔
        ¬ Update.Repeats env r (.block now nSnapshotType fJustCheck p b db)) ∧
      Tracks n' r' ((n', r'.queue.nCurrentSlot) :: seen) := by
  obtain ⟨hok, hfinish⟩ := updateOnNewBlock_accepted hu
  obtain ⟨hstayed, hqueue, hmode⟩ := stayed_beforeAdvance env nSnapshotType p b db r
  obtain ⟨hslot, hproduced, hstarted, hreplay⟩ := produced_finishBlock hfork hfinish
  have h₀ := h.stayed hstayed
  have hflag := hstayed.produced
  generalize r.beforeAdvance env nSnapshotType p b db = r₀ at *
  have hmoved := h₀.moved (moved_advanceTime env p h₀.fresh b.nTime)
  refine ⟨?_, hmoved.take hslot hproduced hstarted⟩
  by_cases hpass : r₀.queue.isEmpty = true ∨ r₀.queue.getCurrentSlotEnd < b.nTime
  · -- the registry leaves its window before the block
    have hleft := left_advanceTime h₀.fresh (hext ▸ hfork) hpass hok
    rw [hslot]
    refine iff_of_true (h₀.not_mem hleft) ?_
    rintro ⟨-, -, hset, hle⟩
    rcases hpass with hempty | hlt
    · rw [← hflag, h₀.fresh hempty] at hset
      cases hset
    · rw [hqueue] at hlt
      exact absurd hle (UInt32.not_le.2 hlt)
  · -- the block is for the window the registry is in
    rw [not_or, Bool.not_eq_true] at hpass
    obtain ⟨hsame, hzero⟩ := advanceTime_of_not_lt env p hpass.1 hpass.2
    rw [hsame] at hslot hreplay
    rw [hzero, Nat.add_zero, hslot, h₀.current, not_iff_not]
    constructor
    · intro hset
      refine ⟨hfork, ?_, hflag ▸ hset, ?_⟩
      · rw [hset, Bool.true_and, outOfReplayMode, hmode] at hreplay
        rw [isInReplayMode_eq, outOfReplayMode, hreplay]
        rfl
      · rw [← hqueue]
        exact UInt32.not_lt.1 hpass.2
    · rintro ⟨-, -, hset, -⟩
      exact hflag.trans hset

theorem Tracks.idle
    (h : Tracks n r seen) {u : Update} (hu : r.update env u = some r') (hqpos : u.isQPoS env = false) :
    ¬ u.Repeats env r ∧ Tracks (n + u.queuesStarted env r) r' seen := by
  cases u with
  | time nTime p =>
    cases hu
    exact ⟨id, h.moved (moved_advanceTime env p h.fresh nTime)⟩
  | block now nSnapshotType fJustCheck p b db =>
    have hfork : ¬ Fork.qpos ≤ getFork env.fTestNet b.nHeight := of_decide_eq_false hqpos
    rw [update] at hu
    split at hu
    · next heq =>
      cases hu
      obtain ⟨-, hfinish⟩ := updateOnNewBlock_accepted heq
      have h₀ := h.stayed (stayed_beforeAdvance env nSnapshotType p b db r).1
      refine ⟨fun hrepeat => hfork hrepeat.1, ?_⟩
      exact (h₀.moved (moved_advanceTime env p h₀.fresh b.nTime)).stayed (stayed_finishBlock hfork hfinish)
    · cases hu
  | exitReplay =>
    cases hu
    exact ⟨id, h.stayed (.of_eq rfl rfl)⟩
  | enterReplay =>
    cases hu
    refine ⟨id, h.stayed ?_⟩
    rw [enterReplayMode]
    split <;> exact .of_eq rfl rfl
  | sync now =>
    cases hu
    refine ⟨id, h.stayed ?_⟩
    rw [checkSynced]
    split <;> exact .of_eq rfl rfl

theorem Tracks.run : ∀ {us : List Update} {n : Nat} {r r' : QPRegistry}
    {seen : List (Nat × Nat)}, Tracks n r seen → (∀ u ∈ us, u.Extends) →
      runUpdates env r us = some r' →
      (((windows env n r us).Nodup ∧ ∀ w ∈ windows env n r us, w ∉ seen) ↔ NoRepeats env r us)
  | [], _, _, _, _, _, _, _ => by simp [windows, NoRepeats]
  | u :: us, n, r, r', seen, h, hext, hrun => by
    obtain ⟨r₁, hu, hus⟩ := Option.bind_eq_some_iff.1 hrun
    obtain ⟨hhead, htail⟩ := List.forall_mem_cons.1 hext
    have hnext : (∀ r', r.update env u = some r' → NoRepeats env r' us) ↔ NoRepeats env r₁ us := by
      rw [hu]
      exact ⟨fun hall => hall r₁ rfl, fun hone r' hr' => Option.some.inj hr' ▸ hone⟩
    rw [NoRepeats, hnext, windows, hu]
    dsimp only
    cases hqpos : u.isQPoS env with
    | false =>
      obtain ⟨hfine, htracks⟩ := h.idle hu hqpos
      rw [if_neg Bool.false_ne_true, htracks.run htail hus]
      exact ⟨fun hno => ⟨hfine, hno⟩, And.right⟩
    | true =>
      cases u with
      | block now nSnapshotType fJustCheck p b db =>
        rw [update] at hu
        split at hu
        · next heq =>
          cases hu
          obtain ⟨hfine, htracks⟩ := h.block hhead (of_decide_eq_true hqpos) heq
          rw [if_pos rfl, ← hfine, ← htracks.run htail hus]
          rw [List.nodup_cons, List.forall_mem_cons]
          constructor
          · rintro ⟨⟨hnot, hnodup⟩, hseen, hall⟩
            refine ⟨hseen, hnodup, fun w hw hmem => ?_⟩
            rcases List.mem_cons.1 hmem with rfl | hmem
            · exact hnot hw
            · exact hall w hw hmem
          · rintro ⟨hseen, hnodup, hall⟩
            exact ⟨⟨fun hmem => hall _ hmem (List.mem_cons_self ..), hnodup⟩, hseen,
              fun w hw hmem => hall w hw (List.mem_cons_of_mem _ hmem)⟩
        · cases hu
      | time nTime pindex => cases hqpos
      | exitReplay => cases hqpos
      | enterReplay => cases hqpos
      | sync now => cases hqpos

/-- The qPoS blocks of a run fall in different windows exactly when no block comes in replay mode
for a slot that already has its block. -/
theorem windows_nodup_iff {env : QPEnv} {r r' : QPRegistry} {us : List Update}
    (hstart : r.fCurrentBlockWasProduced = false) (hext : ∀ u ∈ us, u.Extends)
    (hrun : runUpdates env r us = some r') : (windows env 0 r us).Nodup ↔ NoRepeats env r us := by
  have htracks : Tracks 0 r [] := by
    refine ⟨fun w hw => absurd hw List.not_mem_nil, ?_, fun _ => hstart⟩
    rw [hstart]
    exact iff_of_false List.not_mem_nil Bool.false_ne_true
  rw [← htracks.run hext hrun]
  simp

def earlyBlock : CBlockIndex :=
  { soloBlock 3695100 with nTime := (soloBlock 3695100).nTime - 1 }

def secondBlock : CBlockIndex :=
  { soloBlock 3695101 with nTime := (soloBlock 3695100).nTime }

def twoBlocks : List Update :=
  [.block (blockClock earlyBlock) .noSnaps false (soloBlock 3695099) earlyBlock ∅,
    .block (blockClock secondBlock) .noSnaps false earlyBlock secondBlock ∅]

theorem twoBlocks_extend : ∀ u ∈ twoBlocks, u.Extends := by
  intro u hu
  rcases List.mem_cons.1 hu with rfl | hu
  · change earlyBlock.nHeight = (soloBlock 3695099).nHeight + 1
    decide
  · rw [List.mem_singleton.1 hu]
    change secondBlock.nHeight = earlyBlock.nHeight + 1
    decide

theorem runUpdates_twoBlocks :
    ∃ r r', replay mainEnv blockClock (soloChain 3695099) = some r ∧ r.isInReplayMode = true ∧
      r.fCurrentBlockWasProduced = false ∧ runUpdates mainEnv r twoBlocks = some r' ∧
      windows mainEnv 0 r twoBlocks = [(1, 0), (1, 0)] := by
  have hrun : ∃ r ∈ (soloStart blockClock).map (·.setBlock (soloBlock 3695099)), r.isInReplayMode = true ∧
      r.fCurrentBlockWasProduced = false ∧ (runUpdates mainEnv r twoBlocks).isSome = true ∧
      windows mainEnv 0 r twoBlocks = [(1, 0), (1, 0)] := by
    decide +kernel
  rw [← replay_soloStart blockClock (by decide) (by decide)] at hrun
  obtain ⟨r, hr, hmode, hproduced, hsome, hwindows⟩ := hrun
  obtain ⟨r', hr'⟩ := Option.isSome_iff_exists.1 hsome
  exact ⟨r, r', hr, hmode, hproduced, hr', hwindows⟩

theorem windows_nodup_iff_twoBlocks : ∃ r, replay mainEnv blockClock (soloChain 3695099) = some r ∧
      ((windows mainEnv 0 r twoBlocks).Nodup ↔ NoRepeats mainEnv r twoBlocks) := by
  obtain ⟨r, r', hr, -, hproduced, hrun, -⟩ := runUpdates_twoBlocks
  exact ⟨r, hr, windows_nodup_iff hproduced twoBlocks_extend hrun⟩

/-- In replay mode the staker is credited for two blocks of one slot. -/
theorem windows_twoBlocks :
    ∃ r r', replay mainEnv blockClock (soloChain 3695099) = some r ∧ r.isInReplayMode = true ∧
      Linked (secondBlock :: earlyBlock :: soloChain 3695099) ∧
      (soloBlock 3695099).nTime < earlyBlock.nTime ∧ earlyBlock.nTime < secondBlock.nTime ∧
      runUpdates mainEnv r twoBlocks = some r' ∧ ¬ (windows mainEnv 0 r twoBlocks).Nodup := by
  obtain ⟨r, r', hr, hmode, -, hrun, hwindows⟩ := runUpdates_twoBlocks
  obtain ⟨rest, hrest⟩ := soloChain_head 3695099
  have hlinked := linked_soloChain 3695099
  refine ⟨r, r', hr, hmode, ?_, by decide, by decide, hrun, ?_⟩
  · rw [hrest] at hlinked ⊢
    exact ⟨by decide, by decide, hlinked⟩
  · rw [hwindows]
    decide

end Stealth.QPRegistry

import Stealth.Qpos.Runs
import Stealth.Qpos.Statistics

/-!
A record that is kept along a run of updates, accepted or not: of the slots that count for a staker, and of the
renewals of the queue.
-/

namespace Stealth.QPRegistry

variable {ε : Type} {log : List ε} {r r' : QPRegistry}

def after (env : QPEnv) (r : QPRegistry) : Update → QPRegistry
  | .time nTime pindex => (r.updateOnNewTime env nTime pindex).1
  | .block now nSnapshotType fJustCheck pindexPrev pindex db =>
    (r.updateOnNewBlock env now nSnapshotType fJustCheck pindexPrev pindex db).2.1
  | .exitReplay => r.exitReplayModeInternal
  | .enterReplay => r.enterReplayMode
  | .sync now => r.checkSynced env now

/-- What is recorded of a slot of a staker, with the reward of its block if there is one, and of a renewal. -/
structure Recorder (ε : Type) where
  slot : QPRegistry → Nat → Option Int → List ε
  renewal : List ε

namespace Recorder

section
variable (R : Recorder ε) (env : QPEnv)

def pass (pindex : CBlockIndex) (nNewQueues : Nat) (r : QPRegistry) : List ε :=
  if r.fCurrentBlockWasProduced then []
  else if countsMiss (getFork env.fTestNet pindex.nHeight) nNewQueues then
    R.slot r r.queue.getCurrentID none
  else []

def next (pindex : CBlockIndex) (r : QPRegistry) : List ε :=
  match r.queue.incrementSlot with
  | some _ => []
  | none =>
    match (r.endRound pindex.nMoneySupply).newQueue env (r.queue.getMaxTime + 1) r.hashBlock with
    | none => []
    | some _ => R.renewal

def advance (nTime : UInt32) (pindex : CBlockIndex) (log : List ε) (r : QPRegistry) : List ε :=
  if Fork.qpos ≤ getFork env.fTestNet (pindex.nHeight + 1) then
    match r.startQueue env pindex with
    | none => log
    | some s =>
      (Loop.visited (slotHasPassed nTime) (advanceSlot env pindex) advanceFuel s).foldl
        (fun log s => R.next env pindex (s.1.passSlot env pindex s.2) ++ (R.pass env pindex s.2 s.1 ++ log))
        (if r.queue.isEmpty then R.renewal ++ log else log)
  else log

/-- The slot of a block is recorded if it is the current one and the staker can take it. -/
def produce (pindexPrev pindex : CBlockIndex) (r : QPRegistry) : List ε :=
  if Fork.qpos ≤ getFork env.fTestNet pindex.nHeight ∧
      r.queue.getSlotForID pindex.nStakerID = some r.queue.nCurrentSlot ∧
      (r.fCurrentBlockWasProduced && r.outOfReplayMode) = false then
    R.slot r pindex.nStakerID (some (getQPoSReward pindexPrev))
  else []

def block (now : Int) (fJustCheck : Bool) (pindexPrev pindex : CBlockIndex) (log : List ε) (r : QPRegistry) :
    List ε :=
  let log := R.advance env pindex.nTime pindexPrev log r
  match r.advanceTime env pindex.nTime pindexPrev with
  | (_, false) => log
  | (r', true) =>
    match r'.applyBlockOps env now fJustCheck pindex with
    | .error _ => log
    | .ok r'' => R.produce env pindexPrev pindex r'' ++ log

def update (log : List ε) (r : QPRegistry) : Update → List ε
  | .time nTime pindex => R.advance env nTime pindex log r
  | .block now nSnapshotType fJustCheck pindexPrev pindex db =>
    R.block env now fJustCheck pindexPrev pindex log (r.beforeAdvance env nSnapshotType pindexPrev pindex db)
  | .exitReplay | .enterReplay | .sync _ => log

/-- A run of updates, accepted or not, with its record, latest first. -/
def run (s : QPRegistry × List ε) (us : List Update) : QPRegistry × List ε :=
  us.foldl (fun s u => (s.1.after env u, R.update env s.2 s.1 u)) s

end

end Recorder

def rounds (r : QPRegistry) : List QPPowerElement × List QPPowerElement :=
  (r.powerRoundPrev.vElements, r.powerRoundCurrent.vElements)

/-- Nothing that a record is about changes: the statistics of the stakers and the power rounds. -/
structure Quiet (r r' : QPRegistry) : Prop where
  stakers : CarriesStakers r r'
  prev : r'.fPrevBlockWasProduced = r.fPrevBlockWasProduced
  rounds : r'.rounds = r.rounds

theorem SameState.quiet (h : SameState r r') : Quiet r r' := by
  obtain ⟨m, s, rfl⟩ := h.exists_withMode
  exact ⟨.of_eq rfl rfl, rfl, rfl⟩

theorem OpSteps.quiet (h : OpSteps r r') : Quiet r r' := by
  refine ⟨h.carries, h.opsFrame.prevProduced, ?_⟩
  rw [rounds, rounds, h.opsFrame.powerPrev, h.opsFrame.powerCurrent]

theorem quiet_crossFork (env : QPEnv) (nFork : Fork) (r : QPRegistry) : Quiet r (r.crossFork env nFork) := by
  obtain ⟨f, heq, hf⟩ := crossFork_eq env nFork r
  rw [heq]
  refine ⟨.map rfl rfl fun n s => ?_, rfl, rfl⟩
  rcases hf n s with h | h | ⟨-, h⟩ <;> rw [h]
  · exact .refl s
  · exact .resetDocked s
  · exact ⟨rfl, rfl, rfl, Nat.zero_le _, rfl, rfl, rfl⟩

theorem quiet_sawBlockAll (r : QPRegistry) : Quiet r r.sawBlockAll := by
  refine ⟨.map rfl rfl fun _ s => ?_, rfl, rfl⟩
  split
  · exact ⟨rfl, rfl, rfl, Nat.le_refl _, rfl, rfl, rfl⟩
  · exact .refl s

theorem Quiet.checkPower (h : Quiet r r') (env : QPEnv) : Quiet r (r'.checkPower env) := by
  obtain ⟨f, m, heq⟩ := checkPower_frame env r'
  rw [heq]
  exact ⟨h.stakers.trans (.of_eq rfl rfl), h.prev, h.rounds⟩

namespace Recorder

/-- A relation between the record and the registry that every recorded event keeps. -/
structure Keeps (R : Recorder ε) (I : List ε → QPRegistry → Prop) : Prop where
  quiet : ∀ {log r r'}, I log r → Quiet r r' → I log r'
  missed : ∀ {log r} (env : QPEnv) (nID : Nat) (nHeight : Int), I log r →
    I (R.slot r nID none ++ log) (r.stakerMissedBlock env nID nHeight)
  produced : ∀ {log r} (env : QPEnv) (pindex : CBlockIndex) (nReward : Int), I log r →
    I (R.slot r pindex.nStakerID (some nReward) ++ log) ((r.stakerProducedBlock env pindex nReward).getD r)
  renewal : ∀ {log r r'} {env : QPEnv} {nTime0 : UInt32} {prevHash : Uint256}, I log r →
    r.newQueue env nTime0 prevHash = some r' → I (R.renewal ++ log) r'

namespace Keeps

variable {R : Recorder ε} {I : List ε → QPRegistry → Prop} (hR : R.Keeps I) (env : QPEnv)
include hR

theorem passSlot (h : I log r) (pindex : CBlockIndex) (n : Nat) :
    I (R.pass env pindex n r ++ log) (r.passSlot env pindex n) := by
  rw [pass, QPRegistry.passSlot]
  split
  · exact h
  · split
    · exact hR.missed env _ _ h
    · exact hR.quiet h ⟨.of_eq rfl rfl, rfl, rfl⟩

theorem advanceTime (h : I log r) (nTime : UInt32) (pindex : CBlockIndex) :
    I (R.advance env nTime pindex log r) (r.advanceTime env nTime pindex).1 := by
  refine advanceTime_ghost (I := I) _ h (fun s hs => ?_) (fun log s s' hlog hs' => ?_) (fun log s e hlog he => ?_)
  · rw [startQueue] at hs
    split at hs
    · next hempty =>
      obtain ⟨r', hnew, rfl⟩ := Option.map_eq_some_iff.1 hs
      rw [if_pos hempty]
      exact hR.renewal h hnew
    · next hempty =>
      cases hs
      rw [if_neg hempty]
      exact h
  · have hpass := hR.passSlot env hlog pindex s.2
    rw [next]
    rcases advanceSlot_ok hs' with ⟨q, hq, rfl⟩ | ⟨r', hq, hnew, rfl⟩
    · rw [hq]
      refine hR.quiet hpass (Quiet.checkPower ?_ env)
      exact ⟨.of_eq rfl rfl, rfl, rfl⟩
    · rw [hq]
      dsimp only
      rw [hnew]
      refine hR.quiet (hR.renewal (hR.quiet hpass ?_) hnew) (Quiet.checkPower ?_ env)
      · exact ⟨.of_eq rfl rfl, rfl, rfl⟩
      · exact ⟨.of_eq rfl rfl, rfl, rfl⟩
  · obtain ⟨hq, hnone, rfl⟩ := advanceSlot_error he
    rw [next, hq]
    dsimp only
    rw [newQueue, hnone]
    exact hR.quiet (hR.passSlot env hlog pindex s.2) ⟨.of_eq rfl rfl, rfl, rfl⟩

theorem produceBlock (h : I log r) (pindexPrev pindex : CBlockIndex) :
    Either (I (R.produce env pindexPrev pindex r ++ log)) (r.produceBlock env pindexPrev pindex) := by
  have hproduced := hR.produced env pindex (getQPoSReward pindexPrev) h
  have hres := produces env pindexPrev pindex r
  generalize r.produceBlock env pindexPrev pindex = res at hres
  rw [produce]
  cases hres with
  | before hnot =>
    rw [if_neg fun hslot => hnot hslot.1]
    exact h
  | refused hnone =>
    split
    · next hslot =>
      rw [hnone hslot.2.1 hslot.2.2] at hproduced
      exact hproduced
    · exact h
  | counted _ hfork hslot hfree hprod hres =>
    rw [if_pos ⟨hfork, hslot, hfree⟩]
    rw [hprod, Option.getD_some] at hproduced
    rcases hres with rfl | rfl
    · exact hR.quiet hproduced ⟨.of_eq rfl rfl, rfl, rfl⟩
    · have hqueue : I _ (QPRegistry.setQueue _ _) := hR.quiet hproduced ⟨.of_eq rfl rfl, rfl, rfl⟩
      exact hR.quiet (hR.quiet hqueue (quiet_sawBlockAll _)) ⟨.of_eq rfl rfl, rfl, rfl⟩

theorem updateOnNewBlock (h : I log r) (now : Int) (nSnapshotType : SnapshotType) (fJustCheck : Bool)
    (p b : CBlockIndex) (db : SnapshotDB) :
    I (R.block env now fJustCheck p b log (r.beforeAdvance env nSnapshotType p b db))
      (r.updateOnNewBlock env now nSnapshotType fJustCheck p b db).2.1 := by
  have hfork := hR.quiet h (quiet_crossFork env (getFork env.fTestNet b.nHeight) r)
  have hadvance := hR.advanceTime env
    (hR.quiet hfork (sameState_takeSnapshot env nSnapshotType p db _).quiet) b.nTime p
  rw [updateOnNewBlock_snd, block]
  rw [← beforeAdvance] at hadvance
  rcases hadv : (r.beforeAdvance env nSnapshotType p b db).advanceTime env b.nTime p with ⟨r₁, _ | _⟩
  · rw [hadv] at hadvance
    exact hadvance
  · rw [hadv] at hadvance
    dsimp only
    rw [finishBlock]
    obtain ⟨hok, herr⟩ := opSteps_applyBlockOps env now fJustCheck b r₁
    cases hops : r₁.applyBlockOps env now fJustCheck b with
    | error e => exact hR.quiet hadvance (herr e hops).quiet
    | ok r₂ =>
      have hproduce := hR.produceBlock env (hR.quiet hadvance (hok r₂ hops).quiet) p b
      dsimp only
      cases hprod : r₂.produceBlock env p b with
      | error r₃ =>
        rw [hprod] at hproduce
        exact hproduce
      | ok r₃ =>
        rw [hprod] at hproduce
        exact hR.quiet (show I _ r₃ from hproduce) ⟨.of_eq rfl rfl, rfl, rfl⟩

theorem after (h : I log r) (u : Update) : I (R.update env log r u) (r.after env u) := by
  cases u with
  | time nTime pindex => exact hR.advanceTime env h nTime pindex
  | block now nSnapshotType fJustCheck p b db => exact hR.updateOnNewBlock env h now nSnapshotType fJustCheck p b db
  | exitReplay => exact hR.quiet h (SameState.quiet rfl)
  | enterReplay =>
    rw [QPRegistry.after, enterReplayMode]
    split
    · exact hR.quiet h (SameState.quiet rfl)
    · exact h
  | sync now =>
    rw [QPRegistry.after, checkSynced]
    split
    · exact hR.quiet h (SameState.quiet rfl)
    · exact h

theorem run (us : List Update) : ∀ s : QPRegistry × List ε, I s.2 s.1 → I (R.run env s us).2 (R.run env s us).1 := by
  induction us with
  | nil => exact fun _ h => h
  | cons u us ih => exact fun s h => ih _ (hR.after env h u)

end Keeps

end Recorder

end Stealth.QPRegistry

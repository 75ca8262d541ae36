import Stealth.Chain.CheckBlock
import Stealth.Qpos.Repeated
import Stealth.Qpos.Reset

/-!
Blocks that arrive one after the other, and the snapshots on the way. `ProcessBlock` checks a block on a
copy of the registry that the check advances.
-/

namespace Stealth

open QPRegistry CheckBlockCtx

variable {env : QPEnv} {nFork : Fork} {r r' : QPRegistry} {nSnapshotType : SnapshotType}
  {p : CBlockIndex} {nTime : UInt32} {nHeight : Int}

namespace CheckBlockCtx

variable (ctx : CheckBlockCtx)

/-- What `AcceptBlock` asks of the header of a block on the best one from `XST_FORKQPOS` on. -/
def headerIsNext (pindexPrev : CBlockIndex) (b : CBlock) : Bool :=
  decide (ctx.fork (pindexPrev.nHeight + 1) < .qpos) ||
    (decide (pindexPrev.nTime < b.nTime) && decide (b.nHeight.toInt = pindexPrev.nHeight + 1))

def indexNew (pindexPrev : CBlockIndex) (b : CBlock) : CBlockIndex :=
  { ctx.blockIndex b with nHeight := pindexPrev.nHeight + 1 }

/-- `ProcessBlock` for a block on the best one that connects, as far as the registry goes: the snapshots,
the main registry and whether the block was added. -/
def processBlock (nSnapshotType : SnapshotType) (pindexPrev : CBlockIndex) (b : CBlock) (db : SnapshotDB)
    (r : QPRegistry) : Option (SnapshotDB × QPRegistry × Bool) :=
  let (r₁, vDeets) := ctx.checkBlock true true true true pindexPrev pindexPrev r b
  if vDeets.isSome && ctx.headerIsNext pindexPrev b then
    match (r₁.checkSynced ctx.env ctx.now).updateOnNewBlock ctx.env ctx.now nSnapshotType false pindexPrev
        (ctx.indexNew pindexPrev b) db with
    | (db', r₂, .accepted) =>
      some (db', (r.takeOver (r₁.takeOver r₂)).checkSynced ctx.env ctx.now, true)
    | (db', _, _) => some (db', r, false)
  else none

def Stays (pindexPrev : CBlockIndex) (b : CBlock) (r : QPRegistry) : Prop :=
  r.isInReplayMode = true ∨ ctx.fork b.nHeight.toInt < .qpos ∨
    ctx.fork (pindexPrev.nHeight + 1) < .qpos ∨ InSlot b.nTime r

variable {ctx} {p : CBlockIndex} {b : CBlock} {r : QPRegistry}

theorem checkTime_of_stays (h : ctx.Stays p b r) : (ctx.checkTime true p p r b).1 = r := by
  rw [checkTime, Bool.true_and]
  split
  · next hfork =>
    split
    · rfl
    · next hmode =>
      rcases h with h | h | h | h
      · exact absurd h hmode
      · exact absurd h (Fork.not_lt.2 (of_decide_eq_true hfork))
      · dsimp only
        rw [updateOnNewTime, advanceTime_before_qpos h]
      · dsimp only
        rw [updateOnNewTime, h.advanceTime]
  · split <;> rfl

theorem checkTime_of_not_stays (h : ¬ ctx.Stays p b r) :
    (ctx.checkTime true p p r b).1 = (r.advanceTime ctx.env b.nTime p).1 ∧
      Fork.qpos ≤ ctx.fork (p.nHeight + 1) := by
  rw [Stays, not_or, not_or, not_or] at h
  obtain ⟨hmode, hfork, hprev, -⟩ := h
  refine ⟨?_, Fork.not_lt.1 hprev⟩
  rw [checkTime, Bool.true_and, if_pos (decide_eq_true (Fork.not_lt.1 hfork)), if_neg hmode]
  rfl

theorem checkBlock_accepted (h : (ctx.checkBlock true true true true p p r b).2.isSome) :
    (ctx.checkBlock true true true true p p r b).1 = (ctx.checkTime true p p r b).1 ∧
      ctx.dryRun p (ctx.checkTime true p p r b).1 b = true := by
  have hvalid := contents_of_checkBlock h
  refine ⟨?_, ?_⟩
  · rw [checkBlock] at h ⊢
    split at h
    · cases h
    · next hsize =>
      rw [if_neg hsize]
      dsimp only
      split <;> rfl
  · rw [contentsAreValid, Bool.and_eq_true_iff, Bool.not_true, Bool.false_or] at hvalid
    exact (Bool.and_eq_true_iff.1 hvalid.2).2

end CheckBlockCtx

namespace QPRegistry

/-- The block is the first one past `XST_FORKREINSTATE` or `XST_FORKMISSFIX2`. -/
def Crosses (env : QPEnv) (nFork : Fork) (r : QPRegistry) : Prop :=
  getFork env.fTestNet r.nBlockHeight < .missFix2 ∧
    (Fork.missFix2 ≤ nFork ∨ getFork env.fTestNet r.nBlockHeight < .reinstate ∧ Fork.reinstate ≤ nFork)

/-- No staker has docked blocks, nor is one disqualified where that is corrected. -/
def NothingToCorrect (env : QPEnv) (nFork : Fork) (r : QPRegistry) : Prop :=
  Crosses env nFork r → ∀ (nID : Nat) (s : QPStaker), r.mapStakers[nID]? = some s →
    s.nBlocksDocked = 0 ∧ (nFork < .missFix2 → s.fQualified = true)

theorem crossFork_of_not_crosses (h : ¬ Crosses env nFork r) : r.crossFork env nFork = r := by
  rw [crossFork]
  split
  · next hlow =>
    split
    · next hhigh => exact absurd ⟨hlow, .inl hhigh⟩ h
    · split
      · next hcross => exact absurd ⟨hlow, .inr hcross⟩ h
      · rfl
  · rfl

theorem map_eq_self_iff {m : Map Nat QPStaker} {f : QPStaker → QPStaker} :
    (m.map fun _ s => f s) = m ↔ ∀ (nID : Nat) (s : QPStaker), m[nID]? = some s → f s = s := by
  constructor
  · intro h nID s hs
    have hmap := congrArg (fun m' : Map Nat QPStaker => m'[nID]?) h
    rw [getElem?_map, hs, Option.map_some, Option.some.injEq] at hmap
    exact hmap
  · intro h
    refine ext_getElem? fun nID => ?_
    rw [getElem?_map]
    cases hs : m[nID]? with
    | none => rfl
    | some s => rw [Option.map_some, h nID s hs]

theorem sameData_withStakers_iff {m : Map Nat QPStaker} :
    SameData { r with mapStakers := m } r ↔ m = r.mapStakers := by
  refine ⟨fun h => congrArg Serialized.mapStakers h, ?_⟩
  rintro rfl
  rfl

theorem resetDocked_eq_self_iff {s : QPStaker} : s.resetDocked = s ↔ s.nBlocksDocked = 0 := by
  refine ⟨fun h => (congrArg QPStaker.nBlocksDocked h).symm, fun h => ?_⟩
  rw [QPStaker.resetDocked, ← h]

theorem sameData_crossFork_iff : SameData (r.crossFork env nFork) r ↔ NothingToCorrect env nFork r := by
  by_cases hcross : Crosses env nFork r
  · obtain ⟨hlow, hfork⟩ := hcross
    rw [crossFork, NothingToCorrect, if_pos hlow]
    by_cases hhigh : Fork.missFix2 ≤ nFork
    · rw [if_pos hhigh, sameData_withStakers_iff, map_eq_self_iff]
      refine ⟨fun h _ nID s hs => ⟨resetDocked_eq_self_iff.1 (h nID s hs), fun hlt => ?_⟩,
        fun h nID s hs => resetDocked_eq_self_iff.2 (h ⟨hlow, hfork⟩ nID s hs).1⟩
      exact absurd hlt (Fork.not_lt.2 hhigh)
    · rw [if_neg hhigh, if_pos (hfork.resolve_left hhigh), sameData_withStakers_iff,
        @map_eq_self_iff _ fun s => (if s.isDisqualified then s.requalify true else s).resetDocked]
      refine ⟨fun h _ nID s hs => ?_, fun h nID s hs => ?_⟩
      · have hfix := h nID s hs
        have hqualified : s.fQualified = true := by
          rw [← hfix]
          cases hq : s.fQualified with
          | false => simp [QPStaker.isDisqualified, hq, QPStaker.requalify, QPStaker.resetDocked]
          | true => simp [QPStaker.isDisqualified, hq, QPStaker.resetDocked]
        refine ⟨?_, fun _ => hqualified⟩
        exact (congrArg QPStaker.nBlocksDocked hfix).symm
      · obtain ⟨hdocked, hqualified⟩ := h ⟨hlow, hfork⟩ nID s hs
        rw [QPStaker.isDisqualified, hqualified (Fork.not_le.1 hhigh)]
        exact resetDocked_eq_self_iff.2 hdocked
  · rw [crossFork_of_not_crosses hcross]
    exact iff_of_true (.refl r) fun h => absurd h hcross

theorem getElem?_takeSnapshot (db : SnapshotDB) (hdue : snapshotIsDue env nSnapshotType p.nHeight = true)
    (hnew : p.hashBlock ≠ r.hashBlockLastSnapshot) : (r.takeSnapshot env nSnapshotType p db).1[p.nHeight]? =
      some { r with hashBlockLastSnapshot := p.hashBlock } := by
  rw [takeSnapshot]
  dsimp only
  rw [hdue, Bool.true_and, if_pos (bne_iff_ne.2 hnew)]
  split
  · have hne : p.nHeight - BLOCKS_PER_SNAPSHOT * RECENT_SNAPSHOTS ≠ p.nHeight := by
      rw [BLOCKS_PER_SNAPSHOT, RECENT_SNAPSHOTS]
      omega
    rw [getElem?_erase, if_neg (by simpa using hne)]
    exact getElem?_insert_self
  · exact getElem?_insert_self

theorem updateOnNewBlock_fst (env : QPEnv) (now : Int) (nSnapshotType : SnapshotType) (fJustCheck : Bool)
    (p b : CBlockIndex) (db : SnapshotDB) (r : QPRegistry) :
    (r.updateOnNewBlock env now nSnapshotType fJustCheck p b db).1 =
      ((r.crossFork env (getFork env.fTestNet b.nHeight)).takeSnapshot env nSnapshotType p db).1 := by
  rw [updateOnNewBlock]
  simp only [updateOnNewTimeInternal]
  generalize ((r.crossFork env (getFork env.fTestNet b.nHeight)).takeSnapshot env nSnapshotType p db) = x
  rcases x.2.advanceTime env b.nTime p with ⟨r', _ | _⟩ <;> rfl

theorem applyOps_supply (env : QPEnv) (now : Int) (b : CBlockIndex) (n : Int) :
    ∀ (vDeets : List QPTxDetails) (r : QPRegistry),
      r.applyOps env now { b with nMoneySupply := n } vDeets = r.applyOps env now b vDeets
  | [], _ => rfl
  | deet :: vDeets, r => by
    rw [applyOps, applyOps]
    have hop : r.applyOp env now { b with nMoneySupply := n } deet = r.applyOp env now b deet := rfl
    rw [hop]
    cases r.applyOp env now b deet with
    | error e => rfl
    | ok r' => exact applyOps_supply env now b n vDeets r'

theorem updateOnNewBlock_supply (env : QPEnv) (now : Int) (nSnapshotType : SnapshotType)
    (fJustCheck : Bool) (p b : CBlockIndex) (n : Int) (db : SnapshotDB) (r : QPRegistry) :
    r.updateOnNewBlock env now nSnapshotType fJustCheck p { b with nMoneySupply := n } db =
      r.updateOnNewBlock env now nSnapshotType fJustCheck p b db := by
  have hfinish : ∀ r : QPRegistry, r.finishBlock env now fJustCheck p { b with nMoneySupply := n } =
      r.finishBlock env now fJustCheck p b := by
    intro r
    have hops : r.applyBlockOps env now fJustCheck { b with nMoneySupply := n } =
        r.applyBlockOps env now fJustCheck b := by
      rw [applyBlockOps, applyBlockOps, applyOps_supply]
    rw [finishBlock, finishBlock, hops]
    rfl
  rw [updateOnNewBlock, updateOnNewBlock]
  simp only [hfinish]

end QPRegistry

namespace CheckBlockCtx

variable {ctx : CheckBlockCtx} {nSnapshotType : SnapshotType} {p : CBlockIndex} {b : CBlock}
  {db db' : SnapshotDB} {r r' : QPRegistry} {fAdded : Bool}

/-- The copy of the registry with which the update of a checked block starts. -/
def checked (ctx : CheckBlockCtx) (p : CBlockIndex) (b : CBlock) (r : QPRegistry) : QPRegistry :=
  (ctx.checkTime true p p r b).1.checkSynced ctx.env ctx.now

theorem sameData_checkSynced (env : QPEnv) (now : Int) (r : QPRegistry) :
    SameData (r.checkSynced env now) r := by
  rw [checkSynced]
  split <;> rfl

theorem sameData_takeOver (r r' : QPRegistry) : SameData (r.takeOver r') r' := by
  rw [takeOver]
  split <;> rfl

theorem processBlock_eq_some (h : ctx.processBlock nSnapshotType p b db r = some (db', r', fAdded)) :
    ctx.dryRun p (ctx.checkTime true p p r b).1 b = true ∧ ctx.headerIsNext p b = true ∧
      db' = ((ctx.checked p b r).updateOnNewBlock ctx.env ctx.now nSnapshotType false p
        (ctx.indexNew p b) db).1 ∧
      (fAdded = true → ∃ r₂, ((ctx.checked p b r).updateOnNewBlock ctx.env ctx.now nSnapshotType false p
        (ctx.indexNew p b) db).2 = (r₂, .accepted) ∧ SameData r' r₂) := by
  rw [processBlock] at h
  dsimp only at h
  split at h
  · next hchecked =>
    obtain ⟨hsome, hheader⟩ := Bool.and_eq_true_iff.1 hchecked
    obtain ⟨hfst, hdry⟩ := checkBlock_accepted hsome
    rw [hfst] at h
    change (match (ctx.checked p b r).updateOnNewBlock ctx.env ctx.now nSnapshotType false p
      (ctx.indexNew p b) db with
      | (db', r₂, .accepted) => _
      | (db', _, _) => _) = _ at h
    refine ⟨hdry, hheader, ?_⟩
    split at h
    · next db₁ r₂ hupdate =>
      cases h
      rw [hupdate]
      refine ⟨rfl, fun _ => ⟨r₂, rfl, ?_⟩⟩
      exact (sameData_checkSynced _ _ _).trans ((sameData_takeOver _ _).trans (sameData_takeOver _ _))
    · next db₁ r₂ v _ hupdate =>
      cases h
      rw [hupdate]
      exact ⟨rfl, fun hf => absurd hf Bool.false_ne_true⟩
  · cases h

end CheckBlockCtx

namespace QPRegistry

/-- The registry of a node that replayed a chain when it started, with a replay mode and a last snapshot
of its own, and has processed every block above it as it came, each in a state that satisfies a
condition. The records of the chain have the money supply that connecting the blocks gave them, and `now`
is the clock at each block. -/
inductive Live (env : QPEnv) (now : CBlockIndex → Int)
    (cond : CheckBlockCtx → CBlockIndex → CBlock → QPRegistry → Prop) : Chain → QPRegistry → Prop
  | start {c : Chain} {r : QPRegistry} (nHeightExitedReplay : Int) (hashBlockLastSnapshot : Uint256) :
      replay env now c = some r →
      Live env now cond c (r.withMode nHeightExitedReplay hashBlockLastSnapshot)
  | exitReplay {c : Chain} {r : QPRegistry} : Live env now cond c r →
      Live env now cond c r.exitReplayModeInternal
  | enterReplay {c : Chain} {r : QPRegistry} : Live env now cond c r →
      Live env now cond c r.enterReplayMode
  | block {c : Chain} {p : CBlockIndex} {r r' : QPRegistry} {db db' : SnapshotDB} (ctx : CheckBlockCtx)
      (nSnapshotType : SnapshotType) (b : CBlock) (nMoneySupply : Int) :
      Live env now cond (p :: c) r → ctx.env = env →
      ctx.now = now { ctx.indexNew p b with nMoneySupply := nMoneySupply } → cond ctx p b r →
      ctx.processBlock nSnapshotType p b db r = some (db', r', true) →
      Live env now cond ({ ctx.indexNew p b with nMoneySupply := nMoneySupply } :: p :: c) r'

/-- Where a fork brings corrections, the check of the block passes no slot. -/
def CrossesInSlot (ctx : CheckBlockCtx) (p : CBlockIndex) (b : CBlock) (r : QPRegistry) : Prop :=
  Crosses ctx.env (ctx.fork (p.nHeight + 1)) r → ctx.Stays p b r

theorem SameData.queueInv (h : SameData r r') (hi : QueueInv env r) : QueueInv env r' := by
  obtain ⟨x, o, o', rfl, rfl⟩ := h.exists_override
  exact ⟨hi.slot, hi.nodup, hi.pending, hi.ids, hi.started⟩

theorem crosses_advanceTime_iff : Crosses env nFork (r.advanceTime env nTime p).1 ↔ Crosses env nFork r := by
  have hheight : (r.advanceTime env nTime p).1.nBlockHeight = r.nBlockHeight :=
    congrArg Prod.fst (position_advanceTime env nTime p r)
  rw [Crosses, Crosses, hheight]

theorem sameData_processBlock {ctx : CheckBlockCtx}
    {b : CBlock} {db db' : SnapshotDB} {s s' : QPRegistry} (hi : QueueInv ctx.env r)
    (hsame : SameData r s) (hcross : CrossesInSlot ctx p b r)
    (h : ctx.processBlock nSnapshotType p b db r = some (db', r', true))
    (hs : (s.updateOnNewBlock ctx.env ctx.now .noSnaps false p (ctx.indexNew p b) ∅).2 =
      (s', .accepted)) : SameData r' s' := by
  obtain ⟨-, -, -, hadded⟩ := processBlock_eq_some h
  obtain ⟨r₂, hupdate, hr'⟩ := hadded rfl
  refine hr'.trans ?_
  by_cases hstays : ctx.Stays p b r
  · have hchecked : SameData (ctx.checked p b r) s := by
      rw [checked, checkTime_of_stays hstays]
      exact (sameData_checkSynced _ _ _).trans hsame
    exact hchecked.updateOnNewBlock ctx.env hupdate hs
  · -- the check has advanced the registry, and the update finds nothing left to pass
    have hquiet : ¬ Crosses ctx.env (ctx.fork (p.nHeight + 1)) r := fun hc => hstays (hcross hc)
    obtain ⟨htime, -⟩ := checkTime_of_not_stays hstays
    have hchecked : SameData (ctx.checked p b r) (r.advanceTime ctx.env b.nTime p).1 := by
      rw [checked, htime]
      exact sameData_checkSynced _ _ _
    obtain ⟨hok, hfin⟩ := updateOnNewBlock_accepted hupdate
    obtain ⟨-, hfin'⟩ := updateOnNewBlock_accepted hs
    have hbefore : SameData ((ctx.checked p b r).beforeAdvance ctx.env nSnapshotType p
        (ctx.indexNew p b) db) (r.advanceTime ctx.env b.nTime p).1 := by
      have hcrossed := hchecked.crossFork ctx.env (ctx.fork (p.nHeight + 1))
      rw [crossFork_of_not_crosses (r := (r.advanceTime ctx.env b.nTime p).1)
        (fun hc => hquiet (crosses_advanceTime_iff.1 hc))] at hcrossed
      exact (sameState_takeSnapshot _ _ _ _ _).sameData.symm.trans hcrossed
    have hbefore' : SameData r (s.beforeAdvance ctx.env .noSnaps p (ctx.indexNew p b) ∅) := by
      have hcrossed := hsame.crossFork ctx.env (ctx.fork (p.nHeight + 1))
      rw [crossFork_of_not_crosses hquiet] at hcrossed
      exact hcrossed.trans (sameState_takeSnapshot _ _ _ _ _).sameData
    obtain ⟨hadv, hflag⟩ := hbefore.advanceTime ctx.env p b.nTime
    have hagain := advanceTime_again hi (hflag.symm.trans hok)
    rw [hagain] at hadv
    exact (hadv.trans (hbefore'.advanceTime ctx.env p b.nTime).1).finishBlock ctx.env hfin hfin'

theorem Live.sameData {now : CBlockIndex → Int} {c : Chain} (h : Live env now CrossesInSlot c r) :
    ∀ {r₀ : QPRegistry}, replay env now c = some r₀ → SameData r r₀ := by
  induction h with
  | start _ _ hreplay =>
    intro r₀ hr₀
    rw [hreplay] at hr₀
    cases hr₀
    rfl
  | exitReplay _ ih => exact fun hr₀ => SameData.trans rfl (ih hr₀)
  | @enterReplay c r _ ih =>
    intro r₀ hr₀
    refine SameData.trans ?_ (ih hr₀)
    rw [enterReplayMode]
    split <;> rfl
  | block ctx nSnapshotType b nMoneySupply _ henv hnow hcond hstep ih =>
    intro r₀ hr₀
    subst henv
    obtain ⟨s, hs, hconnect⟩ := Option.bind_eq_some_iff.1 hr₀
    have hupdate := connectBlock_eq_some.1 hconnect
    rw [updateOnNewBlock_supply, ← hnow] at hupdate
    have hi := (ih hs).symm.queueInv (Reachable.replay hs).queueInv
    exact sameData_processBlock hi (ih hs) hcond hstep hupdate

section
variable {ctx : CheckBlockCtx} {p : CBlockIndex} {b : CBlock} {r : QPRegistry}

theorem lastSnapshot_checked (ctx : CheckBlockCtx) (p : CBlockIndex) (b : CBlock) (r : QPRegistry) :
    (ctx.checked p b r).hashBlockLastSnapshot = r.hashBlockLastSnapshot := by
  have hsync : ∀ r : QPRegistry, (r.checkSynced ctx.env ctx.now).hashBlockLastSnapshot =
      r.hashBlockLastSnapshot := by
    intro r
    rw [checkSynced]
    split <;> rfl
  rw [checked, hsync]
  by_cases hstays : ctx.Stays p b r
  · rw [checkTime_of_stays hstays]
  · rw [(checkTime_of_not_stays hstays).1]
    exact congrArg Prod.snd (position_advanceTime ctx.env b.nTime p r)

theorem lastSnapshot_crossFork (env : QPEnv) (nFork : Fork) (r : QPRegistry) :
    (r.crossFork env nFork).hashBlockLastSnapshot = r.hashBlockLastSnapshot := by
  obtain ⟨f, heq, -⟩ := crossFork_eq env nFork r
  rw [heq]

/-- A check that passes a slot leaves its mark on the state with which the update starts. -/
theorem stays_of_sameData (hi : QueueInv ctx.env r) (hheader : ctx.headerIsNext p b = true)
    (hdry : ctx.dryRun p (ctx.checkTime true p p r b).1 b = true)
    (hsame : SameData ((ctx.checked p b r).crossFork ctx.env (ctx.fork (p.nHeight + 1))) r) :
    ctx.Stays p b r := by
  by_contra hstays
  obtain ⟨htime, hfork⟩ := checkTime_of_not_stays hstays
  have hheight : b.nHeight.toInt = p.nHeight + 1 := by
    rw [headerIsNext, decide_eq_false (Fork.not_lt.2 hfork), Bool.false_or,
      Bool.and_eq_true_iff] at hheader
    exact of_decide_eq_true hheader.2
  have hchecked : SameData (r.advanceTime ctx.env b.nTime p).1 (ctx.checked p b r) := by
    rw [checked, htime]
    exact (sameData_checkSynced _ _ _).symm
  have hcrossed := (hchecked.crossFork ctx.env (ctx.fork (p.nHeight + 1))).trans hsame
  -- the dry run starts from the same state, so that the advance succeeds from the one before the check
  have hok : (r.advanceTime ctx.env b.nTime p).2 = true := by
    rw [dryRun, htime] at hdry
    obtain ⟨hadv, -⟩ := updateOnNewBlock_accepted (Prod.ext rfl (beq_iff_eq.1 hdry))
    have hbefore : SameData ((r.advanceTime ctx.env b.nTime p).1.beforeAdvance ctx.env .noSnaps p
        (ctx.blockIndex b) ∅) r := by
      refine (sameState_takeSnapshot _ _ _ _ _).sameData.symm.trans ?_
      rw [show (ctx.blockIndex b).nHeight = p.nHeight + 1 from hheight]
      exact hcrossed
    exact (hbefore.advanceTime ctx.env p b.nTime).2.symm.trans hadv
  have hqueue : (r.advanceTime ctx.env b.nTime p).1.queue = r.queue :=
    (stayed_crossFork ctx.env (ctx.fork (p.nHeight + 1)) _).2.1.symm.trans
      (congrArg Serialized.queue hcrossed :)
  have hslot := inSlot_advanceTime hi hfork hok
  rw [InSlot, hqueue] at hslot
  exact hstays (.inr (.inr (.inr hslot)))

/-- The snapshot of the previous block that is written when a block comes has the state before the block
exactly if the check of the block passes no slot and no fork corrects a staker. -/
theorem snapshot_of_processBlock {db db' : SnapshotDB} {fAdded : Bool} (hi : QueueInv ctx.env r)
    (hstep : ctx.processBlock nSnapshotType p b db r = some (db', r', fAdded))
    (hdue : snapshotIsDue ctx.env nSnapshotType p.nHeight = true)
    (hnew : p.hashBlock ≠ r.hashBlockLastSnapshot) :
    ∃ s, db'[p.nHeight]? = some s ∧ s.hashBlockLastSnapshot = p.hashBlock ∧
      (SameData s r ↔ ctx.Stays p b r ∧ NothingToCorrect ctx.env (ctx.fork (p.nHeight + 1)) r) := by
  obtain ⟨hdry, hheader, rfl, -⟩ := processBlock_eq_some hstep
  rw [← lastSnapshot_checked ctx p b r,
    ← lastSnapshot_crossFork ctx.env (ctx.fork (p.nHeight + 1))] at hnew
  refine ⟨{ (ctx.checked p b r).crossFork ctx.env (ctx.fork (p.nHeight + 1)) with
    hashBlockLastSnapshot := p.hashBlock }, ?_, rfl, ?_⟩
  · rw [updateOnNewBlock_fst]
    exact getElem?_takeSnapshot db hdue hnew
  · constructor
    · intro h
      have hcrossed : SameData ((ctx.checked p b r).crossFork ctx.env (ctx.fork (p.nHeight + 1))) r := h
      have hstays := stays_of_sameData hi hheader hdry hcrossed
      refine ⟨hstays, sameData_crossFork_iff.1 ?_⟩
      rw [checked, checkTime_of_stays hstays] at hcrossed
      exact ((sameData_checkSynced _ _ _).symm.crossFork _ _).trans hcrossed
    · rintro ⟨hstays, hnothing⟩
      have hchecked : SameData (ctx.checked p b r) r := by
        rw [checked, checkTime_of_stays hstays]
        exact sameData_checkSynced _ _ _
      exact (hchecked.crossFork _ _).trans (sameData_crossFork_iff.2 hnothing)

end

section Next

def liveCtx : CheckBlockCtx where
  env := mainEnv
  now := 1422161402
  nBestHeight := 3695280
  blockOf _ := none
  isInMainChain _ := none
  hash _ := 0
  txdb _ := none
  mempool := ∅
  hash9 _ := 0
  hashOfNftHashes := 0
  checkProofOfWork _ _ := false
  verify _ _ _ := true
  checkMinerSignature _ := false
  legacySigOpCount _ := 0

/-- A block without transactions, one slot after the block at height 3695280. -/
def liveBlock : CBlock where
  nVersion := 8
  hashPrevBlock := 3695281
  hashMerkleRoot := 0
  nTime := 1422161402
  nBits := 0
  nNonce := 0
  nHeight := 3695281
  nStakerID := 1
  vtx := []
  vchBlockSig := [1]

theorem Waiting.of_sameState
    (h : Waiting nTime nHeight r) (hsame : SameState r r') : Waiting nTime nHeight r' := by
  obtain ⟨m, s, rfl⟩ := hsame.exists_withMode
  exact { h with }

theorem Waiting.inSlot (h : Waiting nTime nHeight r) : InSlot nTime r := by
  refine ⟨?_, ?_⟩
  · rw [QPQueue.isEmpty, h.ids]
    rfl
  · rw [h.slotEnd]
    exact UInt32.lt_irrefl nTime

theorem Waiting.timestampIsValid (h : Waiting liveBlock.nTime 3695280 r) :
    r.timestampIsValid liveCtx.now 1 liveBlock.nTime = true := by
  have hend := h.slotEnd
  rw [QPQueue.getCurrentSlotEnd, h.slot, QPQueue.slotStart, QP_TARGET_SPACING] at hend
  have hstart : r.queue.nSlotTime0 = 1422161398 := by
    rw [show liveBlock.nTime = 1422161402 from rfl] at hend
    grind
  rw [QPRegistry.timestampIsValid, QPQueue.getWindowForID, QPQueue.getSlotForID, h.ids]
  simp only [List.findIdx?_cons, BEq.rfl, if_true, Option.map_some, QPQueue.slotStart, hstart]
  decide

theorem Waiting.not_crosses (h : Waiting liveBlock.nTime 3695280 r) :
    ¬ Crosses mainEnv (getFork mainEnv.fTestNet 3695281) r := by
  rw [Crosses, h.height]
  decide

theorem Waiting.updateOnNewBlock (h : Waiting liveBlock.nTime 3695280 r)
    (nSnapshotType : SnapshotType) (fJustCheck : Bool) {b : CBlockIndex} (hheight : b.nHeight = 3695281)
    (htime : b.nTime = liveBlock.nTime) (hid : b.nStakerID = 1) (hops : b.vDeets = []) (db : SnapshotDB) :
    ∃ r', (r.updateOnNewBlock mainEnv liveCtx.now nSnapshotType fJustCheck (soloBlock 3695280) b db).2 =
      (r', .accepted) := by
  have hbefore : Waiting liveBlock.nTime 3695280
      (r.beforeAdvance mainEnv nSnapshotType (soloBlock 3695280) b db) := by
    rw [beforeAdvance, hheight, crossFork_of_not_crosses h.not_crosses]
    exact h.of_sameState (sameState_takeSnapshot ..)
  obtain ⟨r', hfin, -⟩ := @Waiting.finishBlock _ _ b (soloBlock 3695280) mainEnv _ hbefore (by decide)
    hid hops hheight (by rw [hheight]; decide) liveCtx.now fJustCheck
  refine ⟨r', ?_⟩
  rw [updateOnNewBlock_snd, htime, hbefore.inSlot.advanceTime]
  exact hfin

theorem checkBlock_live (h : Filled (soloBlock 3695280).nTime 3695280 r) (hmode : r.isInReplayMode = false) :
    ∃ r₁, Waiting liveBlock.nTime 3695280 r₁ ∧
      liveCtx.checkBlock true true true true (soloBlock 3695280) (soloBlock 3695280) r liveBlock =
        (r₁, some []) := by
  obtain ⟨r₁, hwait, hadv⟩ := h.advanceTime (p := soloBlock 3695280)
    (show Fork.qpos ≤ getFork mainEnv.fTestNet ((soloBlock 3695280).nHeight + 1) by decide)
    (show liveBlock.nTime = _ by decide) (by decide)
  refine ⟨r₁, hwait, ?_⟩
  have htime : liveCtx.checkTime true (soloBlock 3695280) (soloBlock 3695280) r liveBlock =
      (r₁, true) := by
    rw [checkTime, if_pos (by decide), hmode, if_neg Bool.false_ne_true, updateOnNewTime]
    simp only [show liveCtx.env = mainEnv from rfl, hadv]
    exact congrArg (Prod.mk r₁) hwait.timestampIsValid
  have hsignature : liveCtx.signatureIsValid true r₁ liveBlock = true := by
    obtain ⟨s, hs, hflaw⟩ := hwait.staker
    have hstaker : r₁.getStakerInternal 1 = some s := by
      rw [getStakerInternal, if_pos (by rw [hwait.counter]; decide), hs]
      rfl
    have hkey : r₁.getDelegateKey liveBlock.nStakerID.toNat = some s.pubkeyDelegate := by
      rw [getDelegateKey, getKeyWith, show liveBlock.nStakerID.toNat = 1 from rfl, hstaker]
      simp [hflaw.not_disqualified]
    rw [signatureIsValid, checkBlockSignature, hkey, if_neg (by decide)]
    rfl
  obtain ⟨r₂, hdry⟩ := hwait.updateOnNewBlock .noSnaps true (b := liveCtx.blockIndex liveBlock) rfl rfl rfl
    rfl ∅
  have hcontents : liveCtx.contentsAreValid true true true (soloBlock 3695280) r₁ liveBlock = true := by
    rw [contentsAreValid, hsignature, operationsAreValid,
      dryRun, show liveCtx.env = mainEnv from rfl, hdry]
    rfl
  rw [checkBlock, if_neg (by decide), htime]
  simp only [hcontents, Bool.and_self, if_true]
  rfl

/-- The block is added, and the snapshot of the one before has a slot without a block. -/
theorem processBlock_live (h : Filled (soloBlock 3695280).nTime 3695280 r)
    (hmode : r.isInReplayMode = false) (hnew : (soloBlock 3695280).hashBlock ≠ r.hashBlockLastSnapshot) :
    ∃ db' r' s, liveCtx.processBlock .allSnaps (soloBlock 3695280) liveBlock ∅ r = some (db', r', true) ∧
      db'[(3695280 : Int)]? = some s ∧ s.hashBlockLastSnapshot = (soloBlock 3695280).hashBlock ∧
      s.fCurrentBlockWasProduced = false := by
  obtain ⟨r₁, hwait, hcheck⟩ := checkBlock_live h hmode
  have hsync : SameState r₁ (r₁.checkSynced mainEnv liveCtx.now) := by
    rw [checkSynced]
    split <;> rfl
  have hwait' := hwait.of_sameState hsync
  obtain ⟨r₂, hupdate⟩ := hwait'.updateOnNewBlock .allSnaps false
    (b := liveCtx.indexNew (soloBlock 3695280) liveBlock) rfl rfl rfl rfl ∅
  have hlast : (r₁.checkSynced mainEnv liveCtx.now).hashBlockLastSnapshot = r.hashBlockLastSnapshot := by
    have hchecked := (@CheckBlockCtx.checkBlock_accepted liveCtx (soloBlock 3695280) liveBlock r
      (by rw [hcheck]; rfl)).1
    rw [hcheck] at hchecked
    have hfrom := lastSnapshot_checked liveCtx (soloBlock 3695280) liveBlock r
    rw [checked, ← hchecked] at hfrom
    exact hfrom
  rw [← hlast] at hnew
  obtain ⟨db', hdb⟩ : ∃ db', (r₁.checkSynced mainEnv liveCtx.now).updateOnNewBlock mainEnv liveCtx.now
      .allSnaps false (soloBlock 3695280) (liveCtx.indexNew (soloBlock 3695280) liveBlock) ∅ =
        (db', r₂, .accepted) := ⟨_, Prod.ext rfl hupdate⟩
  refine ⟨db', (r.takeOver (r₁.takeOver r₂)).checkSynced mainEnv liveCtx.now,
    { r₁.checkSynced mainEnv liveCtx.now with hashBlockLastSnapshot := (soloBlock 3695280).hashBlock }, ?_,
    ?_, rfl, hwait'.produced⟩
  · rw [processBlock, hcheck]
    dsimp only
    rw [if_pos (by decide), show liveCtx.env = mainEnv from rfl, hdb]
  · have hfst : _ = db' := (updateOnNewBlock_fst ..).symm.trans (congrArg Prod.fst hdb)
    rw [← hfst, show (liveCtx.indexNew (soloBlock 3695280) liveBlock).nHeight = 3695281 from rfl,
      crossFork_of_not_crosses hwait'.not_crosses]
    exact getElem?_takeSnapshot ∅ (by decide) hnew

theorem replay_solo_snapshot : ∃ r, replay mainEnv blockClock (soloChain 3695280) = some r ∧
    Filled (soloBlock 3695280).nTime 3695280 r :=
  replay_filled 180 (by decide)

theorem live_solo {r₀ : QPRegistry} (h : replay mainEnv blockClock (soloChain 3695280) = some r₀) :
    ∃ c, soloChain 3695280 = soloBlock 3695280 :: c ∧
      Live mainEnv blockClock CrossesInSlot (soloBlock 3695280 :: c) (r₀.withMode 3695280 0) := by
  obtain ⟨c, hc⟩ := soloChain_head 3695280
  exact ⟨c, hc, .start 3695280 0 (hc ▸ h)⟩

theorem Filled.withMode (h : Filled nTime nHeight r)
    (m : Int) (s : Uint256) : Filled nTime nHeight (r.withMode m s) := { h with }

end Next

end QPRegistry

end Stealth

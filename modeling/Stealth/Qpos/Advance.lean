import Stealth.Lib.Loop
import Stealth.Qpos.Registry

/-!
Advancing the registry by time: missed slots, automatic disabling, queue renewal, docking and
purging of inactive keys, and the snapshots taken on the way.
-/

namespace Stealth.QPRegistry

variable (env : QPEnv) (r : QPRegistry)

def putStaker (nID : Nat) (s : QPStaker) : QPRegistry :=
  { r with mapStakers := r.mapStakers.insert nID s }

/-- Add a slot to the power round with the weight the staker has before the slot is counted. -/
def pushPower (nID : Nat) (s : QPStaker) (fDidProduceBlock : Bool) : QPRegistry :=
  { r with
    powerRoundCurrent :=
      r.powerRoundCurrent.pushBack nID (s.getWeight (r.seniority nID)) fDidProduceBlock }

def recordSlot (hit : Bool) : QPRegistry :=
  { r with bRecentBlocks := shiftIn r.bRecentBlocks hit, fPrevBlockWasProduced := hit }

def setProduced (f : Bool) : QPRegistry := { r with fCurrentBlockWasProduced := f }

def setRollback (f : Bool) : QPRegistry := { r with fShouldRollback := f }

def setQueue (q : QPQueue) : QPRegistry := { r with queue := q }

def disableStaker (nID : Nat) (nHeight : Int) : QPRegistry :=
  match r.getStakerInternal nID with
  | none => r
  | some s => if s.isDisabled then r else r.putStaker nID (s.disable nHeight)

def disableStakerIfNecessary (nID : Nat) (s : QPStaker) (nHeight : Int) : QPRegistry :=
  if getFork env.fTestNet r.nBlockHeight < .feeless then r
  else if s.shouldBeDisabled env.fTestNet nHeight && decide (r.getNumberEnabledInternal > 3) then
    r.disableStaker nID nHeight
  else r

/-- `StakerMissedBlock`. Its caller ignores the failure on an unknown or disqualified staker, which
leaves the registry as it was. -/
def stakerMissedBlock (nID : Nat) (nHeight : Int) : QPRegistry :=
  let nFork := getFork env.fTestNet nHeight
  match r.getStakerInternal nID with
  | none => r
  | some s =>
    if s.isDisqualified then r
    else
      let s' := s.missedBlock r.fPrevBlockWasProduced nFork
      let r' := (r.pushPower nID s false).putStaker nID s'
      let r' :=
        if Fork.missFix ≤ nFork then r'.disableStakerIfNecessary env nID s' nHeight else r'
      r'.recordSlot false

def swapAt (v : List Nat) (i j : Nat) : List Nat :=
  match v[i]?, v[j]? with
  | some a, some b => (v.set i b).set j a
  | _, _ => v

/-- The shuffle loop: position `i` is swapped with the drawn position, from the second on. -/
def shuffleIDs (draw : Nat → Nat) (vIDs : List Nat) : List Nat :=
  (List.range' 1 (vIDs.length - 1)).foldl (fun v i => swapAt v i (draw i)) vIDs

/-- The identifiers of the enabled stakers, which the map already lists in increasing order. -/
def enabledIDs : List Nat :=
  (r.mapStakers.toList.filter fun e => e.2.isEnabled).map Prod.fst

def newQueue (nTime0 : UInt32) (prevHash : Uint256) : Option QPRegistry :=
  if r.enabledIDs.length < 1 then none
  else
    let seed := env.queueSeed prevHash
    some { r with
      queuePrev := r.queue
      queue := .start nTime0 (shuffleIDs (env.shuffler seed) r.enabledIDs)
      nRound := r.nRound + 1
      nRoundSeed := seed
      powerRoundPrev := r.powerRoundCurrent
      powerRoundCurrent := .null
      hashLastBlockPrev3Queue := r.hashLastBlockPrev2Queue
      hashLastBlockPrev2Queue := r.hashLastBlockPrev1Queue
      hashLastBlockPrev1Queue := prevHash }

def DOCK_INACTIVE_FRACTION : Int := 310000000000

/-- Dock one key of the active map: an inactive key loses the dock value if it has a balance. -/
def dockKey (nDockValue : Int) (mapBalances : Map CPubKey Int) (entry : CPubKey × Int) :
    Map CPubKey Int :=
  if entry.2 < 1 then
    match mapBalances[entry.1]? with
    | none => mapBalances
    | some n => mapBalances.insert entry.1 (n - nDockValue)
  else mapBalances

def dockInactiveKeys (nMoneySupply : Int) : QPRegistry :=
  { r with
    mapBalances :=
      r.mapActive.toList.foldl (dockKey (nMoneySupply.tdiv DOCK_INACTIVE_FRACTION)) r.mapBalances }

/-- The keys whose balance is below the dock value and that no staker uses. -/
def lowBalanceKeys (nDockValue : Int) : List CPubKey :=
  (r.mapBalances.toList.filter fun e =>
    decide (e.2 < nDockValue) && decide (r.mapActive.getD e.1 0 ≤ 0)).map Prod.fst

def purgeLowBalances (nMoneySupply : Int) : QPRegistry :=
  let vPurge := r.lowBalanceKeys (nMoneySupply.tdiv DOCK_INACTIVE_FRACTION)
  { r with
    mapBalances := vPurge.foldl (fun m key => m.erase key) r.mapBalances
    mapActive := vPurge.foldl (fun m key => m.erase key) r.mapActive }

def endRound (nMoneySupply : Int) : QPRegistry :=
  (r.dockInactiveKeys nMoneySupply).purgeLowBalances nMoneySupply

/-- Whether a passed slot counts as missed. From `XST_FORKFEELESS2` on only the slots of the queue
in force and of the first new queue of the call count. -/
def countsMiss (nFork : Fork) (nNewQueues : Nat) : Bool :=
  decide (Fork.qpos ≤ nFork) && (decide (nFork < Fork.feeless2) || decide (nNewQueues ≤ 1))

/-- A slot without a block: record the miss, or leave replay mode when it does not count. -/
def passSlot (pindex : CBlockIndex) (nNewQueues : Nat) (r : QPRegistry) : QPRegistry :=
  if r.fCurrentBlockWasProduced then r
  else if countsMiss (getFork env.fTestNet pindex.nHeight) nNewQueues then
    r.stakerMissedBlock env r.queue.getCurrentID pindex.nHeight
  else r.exitReplayModeInternal

/-- Move to the next slot, renewing the queue after its last one. The error carries the registry
that a failed renewal leaves behind. -/
def nextSlot (pindex : CBlockIndex) (nNewQueues : Nat) (r : QPRegistry) :
    Except QPRegistry (QPRegistry × Nat) :=
  match r.queue.incrementSlot with
  | some q => .ok (r.setQueue q, nNewQueues)
  | none =>
    let r' := r.endRound pindex.nMoneySupply
    match r'.newQueue env (r'.queue.getMaxTime + 1) r'.hashBlock with
    | none => .error r'
    | some r'' => .ok (r'', nNewQueues + 1)

/-- A round without enough power asks for a rollback and renews the exit from replay mode. -/
def checkPower : QPRegistry :=
  if r.hasEnoughPower env then r.setRollback false
  else if r.outOfReplayMode then (r.setRollback true).exitReplayModeInternal
  else r.setRollback true

/-- One iteration of the advance loop on the registry and the count of new queues. -/
def advanceSlot (pindex : CBlockIndex) (s : QPRegistry × Nat) : Except QPRegistry (QPRegistry × Nat) :=
  match (s.1.passSlot env pindex s.2).nextSlot env pindex s.2 with
  | .error r => .error r
  | .ok (r, n) => .ok ((r.setProduced false).checkPower env, n)

def slotHasPassed (nTime : UInt32) (s : QPRegistry × Nat) : Bool :=
  s.1.queue.getCurrentSlotEnd < nTime

/-- Slot ends move by a step coprime to `2 ^ 32`, so the loop ends within one cycle of the clock. -/
def advanceFuel : Nat := 2 ^ 32

def advanceLoop (nTime : UInt32) (pindex : CBlockIndex) (s : QPRegistry × Nat) :
    Except QPRegistry (QPRegistry × Nat) :=
  Loop.whileLoop (slotHasPassed nTime) (advanceSlot env pindex) advanceFuel s

/-- The first queue of all starts after the block that ends proof of stake. -/
def startQueue (pindex : CBlockIndex) (r : QPRegistry) : Option (QPRegistry × Nat) :=
  if r.queue.isEmpty then
    (r.newQueue env (pindex.nTime + 1) pindex.hashBlock).map fun r' => (r', 1)
  else some (r, 0)

def advanceTime (nTime : UInt32) (pindex : CBlockIndex) (r : QPRegistry) : QPRegistry × Bool :=
  if Fork.qpos ≤ getFork env.fTestNet (pindex.nHeight + 1) then
    match r.startQueue env pindex with
    | none => (r, false)
    | some s =>
      match advanceLoop env nTime pindex s with
      | .error r' => (r', false)
      | .ok (r', _) => (r', true)
  else (r, true)

inductive SnapshotType where
  | noSnaps | sparseSnaps | allSnaps
  deriving DecidableEq, Repr

/-- The registry snapshots of the transaction database, by height. Only the persistent fields of a
stored registry are read back. -/
abbrev SnapshotDB := Map Int QPRegistry

def BLOCKS_PER_SNAPSHOT : Int := 240
def RECENT_SNAPSHOTS : Int := 144
def PERMANENT_SNAPSHOT_RATIO : Int := 90

/-- Whether the height and type call for a snapshot of the previous block. -/
def snapshotIsDue (nSnapshotType : SnapshotType) (nHeight : Int) : Bool :=
  if nSnapshotType = .noSnaps ∨ getFork env.fTestNet nHeight < .purchase then false
  else if nSnapshotType = .sparseSnaps then
    nHeight % (BLOCKS_PER_SNAPSHOT * PERMANENT_SNAPSHOT_RATIO) = 0
  else nHeight % BLOCKS_PER_SNAPSHOT = 0

/-- Write, prune or erase a snapshot. The pruned height is computed in unsigned arithmetic. -/
def takeSnapshot (nSnapshotType : SnapshotType) (pindex : CBlockIndex) (db : SnapshotDB)
    (r : QPRegistry) : SnapshotDB × QPRegistry :=
  let nHeight := pindex.nHeight
  let fDue := snapshotIsDue env nSnapshotType nHeight
  if fDue && pindex.hashBlock != r.hashBlockLastSnapshot then
    let r' := { r with hashBlockLastSnapshot := pindex.hashBlock }
    let db' := db.insert nHeight r'
    let nHeightErase := nHeight - BLOCKS_PER_SNAPSHOT * RECENT_SNAPSHOTS
    if nHeightErase % 2 ^ 32 % (BLOCKS_PER_SNAPSHOT * PERMANENT_SNAPSHOT_RATIO) ≠ 0 then
      (db'.erase nHeightErase, r')
    else (db', r')
  else if nSnapshotType = .sparseSnaps ∧ ¬ getFork env.fTestNet nHeight < .purchase ∧
      fDue = false then
    (db.erase nHeight, r)
  else (db, r)

def updateOnNewTimeInternal (nTime : UInt32) (pindex : CBlockIndex) (nSnapshotType : SnapshotType)
    (db : SnapshotDB) (r : QPRegistry) :
    SnapshotDB × QPRegistry × Bool :=
  let (db', r') := r.takeSnapshot env nSnapshotType pindex db
  (db', r'.advanceTime env nTime pindex)

def updateOnNewTime (nTime : UInt32) (pindex : CBlockIndex) (r : QPRegistry) : QPRegistry × Bool :=
  r.advanceTime env nTime pindex

end Stealth.QPRegistry

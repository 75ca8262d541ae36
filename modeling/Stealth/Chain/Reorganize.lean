import Stealth.Qpos.Rewind
import Stealth.Chain.Connect

/-! `Reorganize` in one batch, and `SetBestChain`, which aborts the batch when it fails. -/

namespace Stealth

def stepBack (nForkHeight : Int) : MemChain → Int → Option (MemChain × Int)
  | m :: p :: rest, nLongerHeight =>
    if nForkHeight < nLongerHeight then stepBack nForkHeight (p :: rest) (nLongerHeight - 1)
    else some (m :: p :: rest, nLongerHeight)
  | plonger, nLongerHeight => if nForkHeight < nLongerHeight then none else some (plonger, nLongerHeight)

/-- The block where two branches meet, as `Reorganize` finds it. Pointers are equal if the chains are. -/
def findFork : MemChain → Int → MemChain → Int → Option MemChain
  | [], _, _, _ => none
  | f :: below, nForkHeight, plonger, nLongerHeight =>
    if f :: below = plonger then some (f :: below)
    else
      match stepBack nForkHeight plonger nLongerHeight with
      | none => none
      | some (plonger, nLongerHeight) =>
        if f :: below = plonger then some (f :: below)
        else if below = [] then none
        else findFork below (nForkHeight - 1) plonger nLongerHeight

def above (pfork : MemChain) : MemChain → List MemChain
  | [] => []
  | m :: pprev => if m :: pprev = pfork then [] else (m :: pprev) :: above pfork pprev

namespace Node

def txnBegin (n : Node) : Node := { n with db := { n.db with txdb := n.db.txdb.txnBegin } }

def txnAbort (n : Node) : Node := { n with db := { n.db with txdb := n.db.txdb.txnAbort } }

def txnCommit (n : Node) : Node := { n with db := { n.db with txdb := n.db.txdb.txnCommit } }

def inMainChain (n : Node) (hash : Uint256) : Bool :=
  (n.pnext hash).isSome || n.best.pmemIndexBest.head?.any fun m => m.hashBlock == hash

def setNext (n : Node) (hash : Uint256) (next : Option Uint256) : Node :=
  { n with pnext := Function.update n.pnext hash next }

def setLookup (n : Node) (nHeight : Int) (hash : Option Uint256) : Node :=
  { n with mapBlockLookup := Function.update n.mapBlockLookup nHeight hash }

def removeTxs (hash : Bytes → Uint256) (n : Node) (vtx : List CTransaction) : Node :=
  { n with mempool := vtx.foldl (fun pool tx => pool.erase (tx.getHash hash)) n.mempool }

def chainOf (n : Node) (c : MemChain) : Chain :=
  c.filterMap fun m => (n.db.lookup n.db.txdb.view m.hashBlock).map CDiskBlockIndex.toCBlockIndex

def readHead (n : Node) (c : MemChain) : Run (CDiskBlockIndex × Node) :=
  match c with
  | [] => .error (.other, n)
  | m :: _ => n.readIndex m.hashBlock

end Node

def Failure.registry (r : QPRegistry) : Failure → QPRegistry
  | .notConnected r' => r'
  | .other => r

section Steps

variable (E : ChainEnv)

/-- `UpdateOnNewBlock` with all snapshots, for a block and its previous one. The record of the previous
block is read with a handle of its own. -/
def updateRegistry (hash hashPrev : Uint256) (r : QPRegistry) (n : Node) :
    Run (Node × QPRegistry × QPRegistry.Verdict) := do
  let (diskIndex, n) ← n.readIndex hash
  let (diskIndexPrev, n) ← n.readIndexLocal hashPrev
  let (db, r, v) := r.updateOnNewBlock E.env E.now .allSnaps false diskIndexPrev.toCBlockIndex
    diskIndex.toCBlockIndex n.snapshots
  return ({ n with snapshots := db }, r, v)

def invalidChainFound (c : MemChain) (n : Node) : Run Node := do
  let (r, n) ← n.readHead c
  if n.bnBestInvalidTrust < r.bnChainTrust then
    let txdb := n.db.txdb.putThrough .bnBestInvalidTrust (some r.bnChainTrust)
    return { n with bnBestInvalidTrust := r.bnChainTrust, db := { n.db with txdb := txdb } }
  else return n

/-- `ReadFromDisk`: the block that is read must have the hash of its record. -/
def readFromDisk (r : CDiskBlockIndex) : Option CBlock :=
  (E.readBlock r.nFile r.nBlockPos).filter fun b =>
    b.getHash E.env.fTestNet E.hash9 E.hashOfNftHashes == r.hashBlock

def disconnectOne (st : Node × List CTransaction) : MemChain → Run (Node × List CTransaction)
  | [] => .error (.other, st.1)
  | m :: pprev => do
    let (r, n) ← st.1.readIndex m.hashBlock
    match readFromDisk E r with
    | none => .error (.other, n)
    | some b =>
      let n ← disconnectBlock E pprev b n
      let vResurrect := b.vtx.filter fun tx =>
        !(tx.isCoinBase || tx.isCoinStake) && decide (E.nBlocksEstimate < r.nHeight)
      return (n, vResurrect ++ st.2)

/-- One block of the new branch. Its record is read with a handle of its own. -/
def connectOne (st : Node × QPRegistry × List CTransaction) :
    MemChain → Run (Node × QPRegistry × List CTransaction)
  | m :: p :: rest => do
    let (diskIndex, n) ← st.1.readIndexLocal m.hashBlock
    match readFromDisk E diskIndex with
    | none => .error (.other, n)
    | some b =>
      let (n, r) ← connectBlock E (m :: p :: rest) b st.2.1 n
      let (n, r, v) ← updateRegistry E m.hashBlock p.hashBlock r n
      if v = .accepted then return (n, r, st.2.2 ++ b.vtx) else .error (.other, n)
  | _ => .error (.other, st.1)

def unlink (n : Node) (c : MemChain) : Run Node := do
  let n := match c with
    | _ :: p :: _ => n.setNext p.hashBlock none
    | _ => n
  let (r, n) ← n.readHead c
  return n.setLookup r.nHeight none

def link (n : Node) (c : MemChain) : Run Node := do
  let n := match c with
    | m :: p :: _ => n.setNext p.hashBlock (some m.hashBlock)
    | _ => n
  let (r, n) ← n.readHead c
  return n.setLookup r.nHeight (c.head?.map CBlockMemIndex.hashBlock)

def isProperlyConnected (n : Node) : MemChain → Bool
  | _ :: p :: q :: _ => n.pnext q.hashBlock == some p.hashBlock
  | _ => true

/-- The registry at the fork. `Reorganize` does not look at what `RewindRegistry` returns. -/
def rewindToFork (pfork : MemChain) (n : Node) : Node × QPRegistry :=
  let chain := n.chainOf pfork
  match QPRegistry.rewindRegistry E.env (fun _ => E.now) (fun b => n.inMainChain b.hashBlock) chain chain
      .allSnaps n.snapshots (QPRegistry.empty E.env) with
  | .ok (r, db) => ({ n with snapshots := db }, r)
  | .error (r, db) => ({ n with snapshots := db }, r)

/-- `Reorganize` up to the commit: the node, the transactions that come back and those that go. -/
def reorganizeBatch (pfork pmemIndexNew : MemChain) (n : Node) :
    Run (Node × List CTransaction × List CTransaction) := do
  let (n, vResurrect) ← (above pfork n.best.pmemIndexBest).foldlM (disconnectOne E) (n, [])
  let (n, r) := rewindToFork E pfork n
  let (n, _, vDelete) ← (above pfork pmemIndexNew).reverse.foldlM (connectOne E) (n, r, [])
  return (n, vResurrect, vDelete)

def reorganize (pmemIndexNew : MemChain) (n : Node) : Run (Node × MemChain) := do
  let (rFork, n) ← n.readHead n.best.pmemIndexBest
  let (rLonger, n) ← n.readHead pmemIndexNew
  match findFork n.best.pmemIndexBest rFork.nHeight pmemIndexNew rLonger.nHeight with
  | none => .error (.other, n)
  | some pfork =>
    let best := n.best.pmemIndexBest
    let (n, vResurrect, vDelete) ← reorganizeBatch E pfork pmemIndexNew n
    let n := (n.put .hashBestChain (pmemIndexNew.head?.map CBlockMemIndex.hashBlock)).txnCommit
    let n ← (above pfork best).foldlM unlink n
    let vConnect := (above pfork pmemIndexNew).reverse
    if !(vConnect.head?.all (isProperlyConnected n)) then .error (.other, n)
    else
      let n ← vConnect.foldlM link n
      let pool := vResurrect.foldl (E.acceptToMemoryPool n.db.txdb.view) n.mempool
      return ({ n with mempool := pool }.removeTxs E.hash vDelete, pfork)

def setBestChainInner (pmemIndexNew : MemChain) (b : CBlock) (r : QPRegistry) (n : Node) :
    Run (Node × QPRegistry) :=
  match connectBlock E pmemIndexNew b r n with
  | .error (f, n) => do
    let n ← invalidChainFound pmemIndexNew n.txnAbort
    .error (f, n)
  | .ok (n, r) => do
    let hash := b.getHash E.env.fTestNet E.hash9 E.hashOfNftHashes
    let n := (n.put .hashBestChain (some hash)).txnCommit
    if !isProperlyConnected n pmemIndexNew then .error (.other, n)
    else
      let n ← link n pmemIndexNew
      return (n.removeTxs E.hash b.vtx, r)

/-- The blocks that are connected after the reorganisation, newest first, and the first block of the
branch with more trust than the best one. -/
def queueSecondary (bnBestTrust : Int) : MemChain → List MemChain → Node →
    Run (List MemChain × MemChain × Node)
  | m :: p :: rest, vSecondary, n => do
    let (r, n) ← n.readIndex p.hashBlock
    if bnBestTrust < r.bnChainTrust then
      queueSecondary bnBestTrust (p :: rest) (vSecondary ++ [m :: p :: rest]) n
    else return (vSecondary, m :: p :: rest, n)
  | c, vSecondary, n => return (vSecondary, c, n)

/-- The loop of `GetRegistrySnapshot`, over the multiples of the distance of snapshots. -/
def readSnapshotBelow (db : QPRegistry.SnapshotDB) : Nat → QPRegistry → QPRegistry
  | 0, r => r.setNull E.env
  | k + 1, r =>
    let nSnap : Int := (k + 1) * QPRegistry.BLOCKS_PER_SNAPSHOT
    if nSnap < QPRegistry.getPurchaseStart E.env.fTestNet then r.setNull E.env
    else
      match r.readSnapshot db nSnap with
      | (r, true) => r
      | (r, false) => readSnapshotBelow db k r

def getRegistrySnapshot (db : QPRegistry.SnapshotDB) (nReplay : Int) : QPRegistry :=
  readSnapshotBelow E db (nReplay / QPRegistry.BLOCKS_PER_SNAPSHOT).toNat (QPRegistry.empty E.env)

/-- Replay the registry along the pointers to next blocks, at most a number of times: up to a block, or
as long as they lead to the main chain or to the new best block. Rejected blocks do not end the loop. -/
def catchUp (stop : Option Uint256) (hashNewBest : Uint256) :
    Nat → Uint256 → QPRegistry → Node → Run (Uint256 × QPRegistry × Node)
  | 0, hash, r, n => return (hash, r, n)
  | k + 1, hash, r, n =>
    if stop = some hash then return (hash, r, n)
    else
      match n.pnext hash with
      | none => return (hash, r, n)
      | some next => do
        let (n, r, v) ← updateRegistry E next hash r n
        let fLeaves := (n.pnext next).any fun h => !(n.inMainChain h || h == hashNewBest)
        if v = .exited then .error (.other, n)
        else if stop.isNone && fLeaves then return (next, r, n)
        else catchUp stop hashNewBest k next r n

/-- Connect the queued blocks, oldest first: the best block, with its record, that is reached. A block
that does not connect ends the loop without an error. -/
def connectSecondary : List MemChain → MemChain × CDiskBlockIndex → QPRegistry → Node →
    Run ((MemChain × CDiskBlockIndex) × QPRegistry × Node)
  | (m :: p :: rest) :: queue, best, r, n => do
    let (diskIndex, n) ← n.readIndexLocal m.hashBlock
    match readFromDisk E diskIndex with
    | none => return (best, r, n)
    | some b =>
      match setBestChainInner E (m :: p :: rest) b r n.txnBegin with
      | .error (f, n) => do
        let (rec, n) ← n.readIndex p.hashBlock
        return ((p :: rest, rec), f.registry r, n)
      | .ok (n, r) => do
        let (n, r, v) ← updateRegistry E m.hashBlock p.hashBlock r n
        if v = .exited then .error (.other, n) else connectSecondary queue best r n
  | _, best, r, n => return (best, r, n)

/-- The branch of `SetBestChain` that reorganises: the best block with its record, and the registry. -/
def reorganizeTo (pmemIndexNewBest : MemChain) (diskIndexNewBest : CDiskBlockIndex) (r : QPRegistry)
    (n : Node) : Run ((MemChain × CDiskBlockIndex) × QPRegistry × Node) := do
  let (vSecondary, pmemIndexIntermediate, n) ←
    queueSecondary n.best.pindexBest.bnChainTrust pmemIndexNewBest [] n
  match reorganize E pmemIndexIntermediate n with
  | .error (f, n) => do
    let n ← invalidChainFound pmemIndexNewBest n.txnAbort
    .error (f, n)
  | .ok (n, pfork) => do
    let (rFork, n) ← n.readHead pfork
    let r' := getRegistrySnapshot E n.snapshots rFork.nHeight
    let stop := (vSecondary.getLast?.bind fun c => c.tail.head?).map CBlockMemIndex.hashBlock
    let hashNewBest := (pmemIndexNewBest.head?.map CBlockMemIndex.hashBlock).getD 0
    let (hash, r', n) ← catchUp E stop hashNewBest pmemIndexNewBest.length r'.hashBlock r' n
    if stop.isSome && stop != some hash then .error (.other, n)
    else
      let (best, r', n) ← connectSecondary E vSecondary.reverse (pmemIndexNewBest, diskIndexNewBest) r' n
      -- `Copy` leaves the list of certified nodes
      let copied := { r' with mapCertifiedNodes := r.mapCertifiedNodes }
      return (best, if r.isInReplayMode then copied else copied.exitReplayModeInternal, n)

def Node.setBest (n : Node) (c : MemChain) (r : CDiskBlockIndex) : Node :=
  { n with
    best :=
      { pmemIndexBest := c
        pindexBest := r
        hashBestChain := (c.head?.map CBlockMemIndex.hashBlock).getD 0
        nBestHeight := r.nHeight
        bnBestChainTrust := r.bnChainTrust } }

/-- `SetBestChain`: the node, the registry and whether a reorganisation took place. A node without a
best block has no genesis block. -/
def setBestChain (pmemIndexNewBest : MemChain) (b : CBlock) (r : QPRegistry) (n : Node) :
    Run (Node × QPRegistry × Bool) := do
  let (diskIndex, n) ← n.readHead pmemIndexNewBest
  let n := n.txnBegin
  let hash := b.getHash E.env.fTestNet E.hash9 E.hashOfNftHashes
  if n.best.pmemIndexBest = [] ∧ hash = E.env.hashGenesisBlock then
    let n := (n.put .hashBestChain (some hash)).txnCommit
    return (n.setBest pmemIndexNewBest diskIndex, r, false)
  else if b.hashPrevBlock = n.best.hashBestChain then
    let (n, r) ← setBestChainInner E pmemIndexNewBest b r n
    let (diskIndex, n) ← n.readHead pmemIndexNewBest
    return (n.setBest pmemIndexNewBest diskIndex, r, false)
  else
    let (best, r, n) ← reorganizeTo E pmemIndexNewBest diskIndex r n
    return (n.setBest best.1 best.2, r, true)

end Steps

end Stealth

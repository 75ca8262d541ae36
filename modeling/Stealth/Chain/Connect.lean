import Stealth.Chain.Inputs

/-!
`ConnectBlock` and `DisconnectBlock` on the batch of the caller. The cache of records and the counts of
balances are not part of the batch.
-/

namespace Stealth

/-- The pointers to the best block. -/
structure BestChain where
  pmemIndexBest : MemChain
  pindexBest : CDiskBlockIndex
  hashBestChain : Uint256
  nBestHeight : Int
  bnBestChainTrust : Int
  deriving DecidableEq

structure Node where
  db : BlockDB
  mapAddressBalances : Map Int Nat
  pnext : Uint256 → Option Uint256
  mapBlockLookup : Int → Option Uint256
  best : BestChain
  bnBestInvalidTrust : Int
  snapshots : QPRegistry.SnapshotDB
  mempool : Map Uint256 CTransaction

/-- Why a step fails: a block of the new branch does not connect, with the registry that its checks
leave, or anything else. -/
inductive Failure where
  | notConnected (r : QPRegistry)
  | other

abbrev Run (α : Type) := Except (Failure × Node) α

namespace Node

variable (E : ChainEnv)

/-- What the checks of a block see of a node. Database reads go through a handle of their own, which does
not see the batch of the caller. -/
def checkCtx (n : Node) : CheckBlockCtx where
  env := E.env
  now := E.now
  nBestHeight := n.best.nBestHeight
  blockOf h :=
    if n.mempool.contains h then some 0
    else
      (Disk.txIndex n.db.txdb.disk h).bind fun txindex =>
        (E.readTx txindex.pos).bind fun tx =>
          if tx.vout.isEmpty then none
          else some (((E.readBlock txindex.pos.nFile txindex.pos.nBlockPos).map fun b =>
            b.getHash E.env.fTestNet E.hash9 E.hashOfNftHashes).getD 0)
  isInMainChain h :=
    if E.isIndexed h then
      some ((n.pnext h).isSome || n.best.pmemIndexBest.head?.any fun m => m.hashBlock == h)
    else none
  hash := E.hash
  txdb h := (Disk.txIndex n.db.txdb.disk h).bind fun txindex => E.readTx txindex.pos
  mempool := n.mempool
  hash9 := E.hash9
  hashOfNftHashes := E.hashOfNftHashes
  checkProofOfWork := E.checkProofOfWork
  verify := E.verify
  checkMinerSignature := E.checkMinerSignature
  legacySigOpCount := E.legacySigOpCount

def reading (n : Node) : Option (CDiskBlockIndex × BlockDB) → Run (CDiskBlockIndex × Node)
  | none => .error (.other, n)
  | some (r, db) => .ok (r, { n with db := db })

def readIndex (n : Node) (hash : Uint256) : Run (CDiskBlockIndex × Node) :=
  n.reading (n.db.readDiskBlockIndex hash)

def readIndexLocal (n : Node) (hash : Uint256) : Run (CDiskBlockIndex × Node) :=
  n.reading (n.db.readDiskBlockIndexLocal hash)

def writeIndex (n : Node) (hash : Uint256) (r : CDiskBlockIndex) : Node :=
  { n with db := n.db.writeDiskBlockIndex hash r }

def writeIndexLocal (n : Node) (hash : Uint256) (r : CDiskBlockIndex) : Node :=
  { n with db := n.db.writeDiskBlockIndexLocal hash r }

def put (n : Node) (k : DBKey) (v : Option k.Value) : Node := { n with db := n.db.put k v }

def applyExplore (n : Node) (changes : List (Bytes × Option Bytes) × Map Int Nat) : Node :=
  { changes.1.foldl (fun n c => n.put (.addr c.1) c.2) n with mapAddressBalances := changes.2 }

end Node

section Disconnect

variable (E : ChainEnv)

def disconnectTxs (vtx : List CTransaction) (txdb : CTxDB) : Option CTxDB :=
  vtx.reverse.foldlM disconnectInputs txdb

def clearNext (pprev : MemChain) (n : Node) : Run Node :=
  match pprev with
  | [] => .ok n
  | p :: _ => do
    let (r, n) ← n.readIndexLocal p.hashBlock
    return n.writeIndexLocal p.hashBlock (r.setNext 0)

def exploreDisconnect (b : CBlock) (n : Node) : Node :=
  match E.explore with
  | none => n
  | some api => n.applyExplore (api.disconnect n.db.txdb.view n.mapAddressBalances b)

def disconnectBlock (pprev : MemChain) (b : CBlock) (n : Node) : Run Node :=
  match disconnectTxs b.vtx n.db.txdb with
  | none => .error (.other, n)
  | some txdb => do
    let n ← clearNext pprev { n with db := { n.db with txdb := txdb } }
    return (b.ids E.hash).foldl (fun n id => n.put (.tx id) none) (exploreDisconnect E b n)

end Disconnect

/-- The sums of `ConnectBlock`. -/
structure ConnectState where
  mapQueuedChanges : MapTxIndex := ∅
  nFees : Int := 0
  nValueIn : Int := 0
  nValueOut : Int := 0
  nValuePurchases : Int := 0
  nValueClaims : Int := 0
  nSigOps : Nat := 0
  nTxPos : UInt32

/-- What the loop of `ConnectBlock` reads: the node before the block, the registry, the block in memory,
its record and the money supply of the previous one. -/
structure ConnectCtx where
  node : Node
  registry : QPRegistry
  mem : CBlockMemIndex
  pprev : MemChain
  diskIndex : CDiskBlockIndex
  nPrevMoneySupply : Int

section Connect

variable (E : ChainEnv) (c : ConnectCtx)

namespace ConnectCtx

def nFork : Fork := getFork E.env.fTestNet (c.node.best.nBestHeight + 1)

def disk : Disk := c.node.db.txdb.view

def checks : CheckCtx := (c.node.checkCtx E).toCheckCtx

def nPrice : Int :=
  getStakerPrice E.env.fTestNet (UInt32.ofNat c.registry.getNumberQualifiedInternal)
    c.nPrevMoneySupply (c.nFork E)

end ConnectCtx

def overwritesUnspent (hashTx : Uint256) : Bool :=
  (c.disk.txIndex hashTx).any fun txindexOld => txindexOld.vSpent.any CDiskTxPos.isNull

/-- The claim of a transaction and the prices of its purchases. A coinstake has neither. -/
def claimAndPurchases (inputs : MapPrevIndex) (tx : CTransaction) : Option (Int × Int) :=
  if tx.isCoinStake then some (0, 0)
  else
    (checkClaim (c.checks E) c.registry inputs.txs tx).bind fun claim =>
      (checkPurchases (c.checks E) c.registry (c.nPrice E) tx).map fun mapPurchases =>
        (claim.value, (mapPurchases.toList.map fun e => e.2.value).sum)

def connectSpending (posThisTx : CDiskTxPos) (st : ConnectState) (tx : CTransaction) :
    Option ConnectState :=
  (fetchBlockInputs E c.disk c.node.mempool st.mapQueuedChanges tx).bind fun inputs =>
    let nSigOps := st.nSigOps + E.p2shSigOpCount inputs.txs tx
    if MAX_BLOCK_SIGOPS < nSigOps then none
    else
      (claimAndPurchases E c inputs tx).bind fun (nClaim, nTxValuePurchases) =>
        let nTxValueIn := nClaim + getValueIn inputs tx
        let nTxValueOut := tx.getValueOut
        (connectInputs E c.disk c.node.best.nBestHeight (c.mem :: c.pprev) c.diskIndex
          (decide (.fork005 ≤ c.nFork E)) nTxValuePurchases nClaim posThisTx inputs st.mapQueuedChanges
          tx).map fun mapQueuedChanges =>
            { st with
              mapQueuedChanges := mapQueuedChanges
              nFees := if tx.isCoinStake then st.nFees
                else st.nFees + (nTxValueIn - (nTxValueOut + nTxValuePurchases))
              nValueIn := st.nValueIn + nTxValueIn
              nValueOut := st.nValueOut + nTxValueOut
              nValuePurchases := st.nValuePurchases + nTxValuePurchases
              nValueClaims := st.nValueClaims + nClaim
              nSigOps := nSigOps }

def connectTx (st : ConnectState) (tx : CTransaction) : Option ConnectState :=
  let hashTx := tx.getHash E.hash
  if overwritesUnspent c hashTx then none
  else
    let nSigOps := st.nSigOps + E.legacySigOpCount tx
    if MAX_BLOCK_SIGOPS < nSigOps then none
    else
      let posThisTx : CDiskTxPos := ⟨c.mem.nFile, c.mem.nBlockPos, st.nTxPos⟩
      let st := { st with
        nSigOps := nSigOps
        nTxPos := st.nTxPos + UInt32.ofNat tx.serialize.length }
      (if tx.isCoinBase then some { st with nValueOut := st.nValueOut + tx.getValueOut }
        else connectSpending E c posThisTx st tx).map fun st =>
          { st with
            mapQueuedChanges := st.mapQueuedChanges.insert hashTx (.unspent posThisTx tx.vout.length) }

/-- The position of the first transaction: after the header and the number of transactions. -/
def firstTxPos (vtx : List CTransaction) : UInt32 :=
  c.mem.nBlockPos +
    UInt32.ofNat ((if CBlock.qposVersion ≤ c.diskIndex.nVersion then 88 else 80) +
      (writeCompactSize vtx.length).length)

def connectTxs (vtx : List CTransaction) : Option ConnectState :=
  vtx.foldlM (connectTx E c) { nTxPos := firstTxPos c vtx }

/-- The record of a connected block: mint, money supply and operations. -/
def connectedIndex (vDeets : List QPTxDetails) (st : ConnectState) : CDiskBlockIndex :=
  { c.diskIndex with
    nMint :=
      if c.diskIndex.isProofOfWork then
        st.nValueOut + st.nValuePurchases - (st.nValueIn - st.nValueClaims)
      else st.nValueOut + st.nValuePurchases + st.nFees - (st.nValueIn - st.nValueClaims)
    nMoneySupply :=
      if .purchase3 ≤ c.nFork E then
        c.nPrevMoneySupply + st.nValueOut - (st.nValueIn - st.nValueClaims)
      else c.nPrevMoneySupply + st.nValueOut - (st.nValuePurchases + st.nValueIn - st.nValueClaims)
    vDeets := vDeets }

def exploreConnect (b : CBlock) (n : Node) : Node :=
  match E.explore with
  | none => n
  | some api => n.applyExplore (api.connect n.db.txdb.view n.mapAddressBalances b)

/-- What `ConnectBlock` writes for a block that passed: its record, the index entries, and the record of
the previous block. -/
def writeConnected (b : CBlock) (m p : CBlockMemIndex) (r rPrev : CDiskBlockIndex)
    (mapQueuedChanges : MapTxIndex) (n : Node) : Node :=
  let n := n.writeIndex m.hashBlock r
  let n := mapQueuedChanges.toList.foldl (fun n e => n.put (.tx e.1) (some e.2)) n
  exploreConnect E b (n.writeIndex p.hashBlock (rPrev.setNext m.hashBlock))

/-- `ConnectBlock`, with the registry that `CheckBlock` leaves. Nothing is written before all checks have
passed. A block without a previous one is not connected this way. -/
def connectBlock (pmemIndex : MemChain) (b : CBlock) (r : QPRegistry) (n : Node) :
    Run (Node × QPRegistry) :=
  match pmemIndex with
  | m :: p :: rest => do
    let (diskIndex, n) ← n.readIndex m.hashBlock
    let (diskIndexPrev, n) ← n.readIndex p.hashBlock
    let (diskIndexChecked, n) ← n.readIndexLocal p.hashBlock
    match (n.checkCtx E).checkBlock true true true true n.best.pindexBest.toCBlockIndex
        diskIndexChecked.toCBlockIndex r b with
    | (r, none) => .error (.notConnected r, n)
    | (r, some vDeets) =>
      let c : ConnectCtx := ⟨n, r, m, p :: rest, diskIndex, diskIndexPrev.nMoneySupply⟩
      match connectTxs E c b.vtx with
      | none => .error (.notConnected r, n)
      | some st =>
        .ok (writeConnected E b m p (connectedIndex E c vDeets st) diskIndexPrev
          st.mapQueuedChanges n, r)
  | _ => .error (.other, n)

end Connect

end Stealth

import Stealth.Chain.Block
import Stealth.Chain.BlockChecks

/-!
`CheckBlock`. From `XST_FORKQPOS` on the time of a block is checked on a registry that is advanced for it,
and the operations are tried on a copy.
-/

namespace Stealth

def MAX_BLOCK_SIZE : Nat := 1000000
def MAX_CLOCK_DRIFT : Int := 2 * 60 * 60

def moneyRange (nValue : Int) : Bool := decide (0 ≤ nValue) && decide (nValue ≤ MAX_MONEY)

def futureDrift (nTime : Int) : Int := nTime + 7

def getMinOutputAmount (fTestNet : Bool) (nHeight : Int) : Int :=
  if nHeight < 0 then 0
  else if getFork fTestNet nHeight < .purchase then 0
  else if fTestNet && decide (getFork fTestNet nHeight < .missFix) then 0
  else MIN_TXOUT_AMOUNT

/-- The lower limit of an output, by the fork and the type of its script. -/
def outputIsTooSmall (fTestNet : Bool) (nNewHeight : Int) (txout : CTxOut) : Bool :=
  let nFork := getFork fTestNet nNewHeight
  let nValue := txout.nValue.toInt
  if nFork < .fork004 then
    !txout.isEmpty && decide (nValue < getMinOutputAmount fTestNet nNewHeight)
  else if nFork < .purchase then decide (nValue < getMinOutputAmount fTestNet nNewHeight)
  else
    match solver txout.scriptPubKey with
    | some (.purchase1, _) | some (.purchase4, _) | some (.setOwner, _) | some (.setManager, _)
    | some (.setDelegate, _) | some (.setController, _) | some (.enable, _) | some (.disable, _)
    | some (.setMeta, _) | some (.feework, _) | some (.nullData, _) => decide (nValue < 0)
    | some (.pubkey, _) | some (.pubkeyhash, _) | some (.scripthash, _) | some (.multisig, _) =>
      decide (nValue < getMinOutputAmount fTestNet nNewHeight)
    | _ => false

/-- The loop of `CheckTransaction` over the outputs, one output: the sum so far. -/
def checkOutput (fTestNet : Bool) (nNewHeight : Int) (tx : CTransaction) (nValueOut : Int)
    (txout : CTxOut) : Option Int :=
  if txout.isEmpty && !tx.isCoinBase && !tx.isCoinStake then none
  else if outputIsTooSmall fTestNet nNewHeight txout then none
  else if txout.nValue.toInt > MAX_MONEY then none
  else if !moneyRange (nValueOut + txout.nValue.toInt) then none
  else some (nValueOut + txout.nValue.toInt)

def coinbaseScriptIsValid (tx : CTransaction) : Bool :=
  tx.vin.head?.any fun txin =>
    decide (2 ≤ txin.scriptSig.length) && decide (txin.scriptSig.length ≤ 100)

def checkTransaction (fTestNet : Bool) (nNewHeight : Int) (tx : CTransaction) : Bool :=
  !tx.vin.isEmpty && !tx.vout.isEmpty && decide (tx.serialize.length ≤ MAX_BLOCK_SIZE) &&
    (tx.vout.foldlM (checkOutput fTestNet nNewHeight tx) 0).isSome &&
    decide (tx.vin.map CTxIn.prevout).Nodup &&
    if tx.isCoinBase then coinbaseScriptIsValid tx else tx.vin.all fun txin => !txin.prevout.isNull

/-- What `CheckBlock` reads besides the registry and the block: hashes, proofs of work, signatures of
keys and of blocks without a staker, and counts of signature operations are parameters. -/
structure CheckBlockCtx extends BlockCtx where
  hash9 : Bytes → Uint256
  hashOfNftHashes : Uint256
  checkProofOfWork : Uint256 → UInt32 → Bool
  verify : CPubKey → Uint256 → Bytes → Bool
  checkMinerSignature : CBlock → Bool
  legacySigOpCount : CTransaction → Nat

namespace CheckBlockCtx

variable (ctx : CheckBlockCtx)

def blockHash (b : CBlock) : Uint256 := b.getHash ctx.env.fTestNet ctx.hash9 ctx.hashOfNftHashes

def vDeets (b : CBlock) : List QPTxDetails := b.vtx.flatMap (blockDeets ctx.toBlockCtx (ctx.blockHash b))

def blockIndex (b : CBlock) : CBlockIndex where
  hashBlock := ctx.blockHash b
  nHeight := b.nHeight.toInt
  nTime := b.nTime
  nStakerID := b.nStakerID.toNat
  nMoneySupply := 0
  vDeets := ctx.vDeets b

def checkBlockSignature (r : QPRegistry) (b : CBlock) : Bool :=
  if ctx.blockHash b = ctx.env.hashGenesisBlock then b.vchBlockSig.isEmpty
  else if b.isQuantumProofOfStake then
    match r.getDelegateKey b.nStakerID.toNat with
    | none => false
    | some key => !b.vchBlockSig.isEmpty && ctx.verify key (ctx.blockHash b) b.vchBlockSig
  else ctx.checkMinerSignature b

def sizeIsValid (b : CBlock) : Bool :=
  !(decide (ctx.fork b.nHeight.toInt < .qpos) && b.vtx.isEmpty) &&
    decide (b.vtx.length ≤ MAX_BLOCK_SIZE) && decide (b.serialize.length ≤ MAX_BLOCK_SIZE)

def checkTime (fCheckQPoS : Bool) (pindexBest pindexPrev : CBlockIndex) (r : QPRegistry) (b : CBlock) :
    QPRegistry × Bool :=
  if fCheckQPoS && decide (Fork.qpos ≤ ctx.fork b.nHeight.toInt) then
    if r.isInReplayMode then (r, true)
    else
      let r' := (r.updateOnNewTime ctx.env b.nTime pindexBest).1
      (r', r'.timestampIsValid ctx.now b.nStakerID.toNat b.nTime)
  else if .fork005 ≤ ctx.fork (pindexPrev.nHeight + 1) then
    (r, decide ((b.nTime.toNat : Int) ≤ futureDrift ctx.now))
  else (r, decide ((b.nTime.toNat : Int) ≤ ctx.now + MAX_CLOCK_DRIFT))

def kindsAreValid (b : CBlock) : Bool :=
  if .qpos ≤ ctx.fork b.nHeight.toInt then
    b.vtx.all (fun tx => !(tx.isCoinBase || tx.isCoinStake)) && b.isQuantumProofOfStake
  else
    match b.vtx with
    | [] => false
    | base :: rest => base.isCoinBase && rest.all fun tx => !tx.isCoinBase

def baseTimeIsValid (pindexPrev : CBlockIndex) (b : CBlock) : Bool :=
  match b.vtx with
  | [] => true
  | tx :: _ =>
    if ctx.fork (pindexPrev.nHeight + 1) < .fork005 ∧ ctx.fork b.nHeight.toInt < .qpos then
      decide ((b.nTime.toNat : Int) ≤ tx.nTime.toNat + MAX_CLOCK_DRIFT)
    else
      !(tx.hasTimestamp && !b.isProofOfWork) ||
        decide ((b.nTime.toNat : Int) ≤ futureDrift tx.nTime.toNat)

def stakeIsValid (b : CBlock) : Bool :=
  match b.vtx with
  | base :: stake :: rest =>
    !stake.isCoinStake ||
      (decide (base.vout.length = 1) && base.vout.all CTxOut.isEmpty &&
        rest.all (fun tx => !tx.isCoinStake) && (!stake.hasTimestamp || b.nTime == stake.nTime))
  | _ => true

def signatureIsValid (fCheckSig : Bool) (r : QPRegistry) (b : CBlock) : Bool :=
  !fCheckSig || b.isProofOfWork || ctx.checkBlockSignature r b

/-- The transactions for themselves, their ids and their count of signature operations. -/
def transactionsAreValid (b : CBlock) : Bool :=
  b.vtx.all (fun tx => checkTransaction ctx.env.fTestNet b.nHeight.toInt tx &&
      !(tx.hasTimestamp && decide (b.nTime < tx.nTime))) &&
    decide (b.ids ctx.hash).Nodup &&
    decide ((b.vtx.map ctx.legacySigOpCount).sum ≤ MAX_BLOCK_SIGOPS)

def merkleRootIsValid (fCheckMerkleRoot : Bool) (b : CBlock) : Bool :=
  !fCheckMerkleRoot || b.hashMerkleRoot == b.buildMerkleTree ctx.hash

def dryRun (pindexPrev : CBlockIndex) (r : QPRegistry) (b : CBlock) : Bool :=
  (r.updateOnNewBlock ctx.env ctx.now .noSnaps true pindexPrev (ctx.blockIndex b) ∅).2.2 == .accepted

def operationsAreValid (pindexPrev : CBlockIndex) (r : QPRegistry) (b : CBlock) : Bool :=
  (checkBlockQPoS ctx.toBlockCtx r (ctx.blockHash b) b.nTime pindexPrev b.vtx).isSome &&
    ctx.dryRun pindexPrev r b

def contentsAreValid (fCheckMerkleRoot fCheckSig fCheckQPoS : Bool) (pindexPrev : CBlockIndex)
    (r : QPRegistry) (b : CBlock) : Bool :=
  ctx.kindsAreValid b && ctx.baseTimeIsValid pindexPrev b && stakeIsValid b &&
    ctx.signatureIsValid fCheckSig r b && ctx.transactionsAreValid b &&
    ctx.merkleRootIsValid fCheckMerkleRoot b &&
    (!fCheckQPoS || ctx.operationsAreValid pindexPrev r b)

/-- `CheckBlock`: the registry it leaves, and the operations of an accepted block. -/
def checkBlock (fCheckPOW fCheckMerkleRoot fCheckSig fCheckQPoS : Bool)
    (pindexBest pindexPrev : CBlockIndex) (r : QPRegistry) (b : CBlock) :
    QPRegistry × Option (List QPTxDetails) :=
  if !ctx.sizeIsValid b ||
      (fCheckPOW && b.isProofOfWork && !ctx.checkProofOfWork (ctx.blockHash b) b.nBits) then (r, none)
  else
    let (r', fTime) := ctx.checkTime fCheckQPoS pindexBest pindexPrev r b
    if fTime && ctx.contentsAreValid fCheckMerkleRoot fCheckSig fCheckQPoS pindexPrev r' b then
      (r', some (if fCheckQPoS then ctx.vDeets b else []))
    else (r', none)

variable {ctx}

theorem contents_of_checkBlock {fCheckPOW fCheckMerkleRoot fCheckSig fCheckQPoS : Bool}
    {pindexBest pindexPrev : CBlockIndex} {r : QPRegistry} {b : CBlock}
    (h : (ctx.checkBlock fCheckPOW fCheckMerkleRoot fCheckSig fCheckQPoS pindexBest pindexPrev r
      b).2.isSome) :
    ctx.contentsAreValid fCheckMerkleRoot fCheckSig fCheckQPoS pindexPrev
      (ctx.checkTime fCheckQPoS pindexBest pindexPrev r b).1 b = true := by
  rw [checkBlock] at h
  split at h
  · cases h
  · dsimp only at h
    split at h
    · next hvalid => exact (Bool.and_eq_true_iff.1 hvalid).2
    · cases h

end CheckBlockCtx

end Stealth

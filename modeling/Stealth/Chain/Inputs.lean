import Stealth.Chain.TxDB

/-!
`FetchInputs` for a block, `ConnectInputs` and `DisconnectInputs`. An input is looked up in the pending
changes first, so a transaction can spend outputs of its own block.
-/

namespace Stealth

/-- A block of the tree in memory. A pointer to it is the list of the block and its ancestors. -/
structure CBlockMemIndex where
  hashBlock : Uint256
  nFile : UInt32
  nBlockPos : UInt32
  deriving DecidableEq, Repr

abbrev MemChain := List CBlockMemIndex

/-- The address index of the explorer: the changes to its records and to the counts of balances that a
block brings, from the store as the handle sees it. -/
structure ExploreApi where
  connect : Disk → Map Int Nat → CBlock → List (Bytes × Option Bytes) × Map Int Nat
  disconnect : Disk → Map Int Nat → CBlock → List (Bytes × Option Bytes) × Map Int Nat

/-- What connecting a block reads besides the state of the node. Hashes, signatures, proofs of work,
counts of signature operations, fees and feework are parameters, and so are the block files. -/
structure ChainEnv where
  env : QPEnv
  now : Int
  hash : Bytes → Uint256
  hash9 : Bytes → Uint256
  hashOfNftHashes : Uint256
  checkProofOfWork : Uint256 → UInt32 → Bool
  verify : CPubKey → Uint256 → Bytes → Bool
  checkMinerSignature : CBlock → Bool
  legacySigOpCount : CTransaction → Nat
  p2shSigOpCount : MapPrevTx → CTransaction → Nat
  /-- `VerifySignature` of an input, with or without the check of lock times. -/
  verifySignature : Bool → CTransaction → CTransaction → Nat → Bool
  /-- `GetTotalBlocksEstimate`: the height of the last checkpoint. -/
  nBlocksEstimate : Int
  minFee : CTransaction → Int
  checkFeework : MemChain → CTransaction → Bool
  stakeRewardIsValid : Disk → CDiskBlockIndex → Int → CTransaction → Bool
  readBlock : UInt32 → UInt32 → Option CBlock
  readTx : CDiskTxPos → Option CTransaction
  /-- The blocks of `mapBlockIndex`. -/
  isIndexed : Uint256 → Bool
  explore : Option ExploreApi
  /-- `AcceptToMemoryPool`: the pool after it, for the store as the handle sees it. -/
  acceptToMemoryPool : Disk → Map Uint256 CTransaction → CTransaction → Map Uint256 CTransaction

/-- The sum of `GetValueOut`, which throws if an output or the sum is not in the range of money. The memory
pool of the main net takes only standard outputs, which `CheckTransaction` keeps in that range, and where
`ConnectBlock` throws there is no result to speak of. `getValueOutOrThrow` has the throw. -/
def CTransaction.getValueOut (tx : CTransaction) : Int := (tx.vout.map fun o => o.nValue.toInt).sum

abbrev MapTxIndex := Map Uint256 CTxIndex

abbrev MapPrevIndex := Uint256 → Option (CTxIndex × CTransaction)

def MapPrevIndex.txs (inputs : MapPrevIndex) : MapPrevTx := fun h => (inputs h).map Prod.snd

section Inputs

variable (E : ChainEnv) (disk : Disk)

/-- `FetchInputs` for a block, one input. The position `(1,1,1)` stands for the memory pool. -/
def fetchBlockInput (mempool : Map Uint256 CTransaction) (mapTestPool : MapTxIndex)
    (inputs : MapPrevIndex) (txin : CTxIn) : Option MapPrevIndex :=
  let h := txin.prevout.hash
  if (inputs h).isSome then some inputs
  else
    match mapTestPool[h]?.or (disk.txIndex h) with
    | none => none
    | some txindex =>
      (if txindex.pos = ⟨1, 1, 1⟩ then mempool[h]? else E.readTx txindex.pos).map fun txPrev =>
        Function.update inputs h (some (txindex, txPrev))

/-- An input refers to an output that the previous transaction and its index entry have. -/
def outputExists (inputs : MapPrevIndex) (txin : CTxIn) : Bool :=
  (inputs txin.prevout.hash).any fun p =>
    decide (txin.prevout.n.toNat < p.2.vout.length) && decide (txin.prevout.n.toNat < p.1.vSpent.length)

def fetchBlockInputs (mempool : Map Uint256 CTransaction) (mapTestPool : MapTxIndex)
    (tx : CTransaction) : Option MapPrevIndex :=
  (tx.vin.foldlM (fetchBlockInput E disk mempool mapTestPool) fun _ => none).bind fun inputs =>
    if tx.vin.all (outputExists inputs) then some inputs else none

def getValueIn (inputs : MapPrevIndex) (tx : CTransaction) : Int :=
  (tx.vin.map fun txin => ((getOutputFor inputs.txs txin).map fun o => o.nValue.toInt).getD 0).sum

def coinbaseMaturity : Nat := if E.env.fTestNet then 10 else 40

/-- A coinbase or coinstake that is among the last blocks cannot be spent. -/
def isImmature (pmemIndex : MemChain) (txindex : CTxIndex) (txPrev : CTransaction) : Bool :=
  (txPrev.isCoinBase || txPrev.isCoinStake) &&
    (pmemIndex.take (coinbaseMaturity E)).any fun m =>
      m.nBlockPos == txindex.pos.nBlockPos && m.nFile == txindex.pos.nFile

def checkInput (nBestHeight : Int) (pmemIndex : MemChain) (inputs : MapPrevIndex) (tx : CTransaction)
    (nValueIn : Int) (txin : CTxIn) : Option Int :=
  match inputs txin.prevout.hash with
  | none => none
  | some (txindex, txPrev) =>
    match txPrev.vout[txin.prevout.n.toNat]? with
    | none => none
    | some txout =>
      let nValue := txout.nValue.toInt
      if txindex.vSpent.length ≤ txin.prevout.n.toNat then none
      else if isImmature E pmemIndex txindex txPrev then none
      else if txPrev.hasTimestamp && tx.hasTimestamp && decide (tx.nTime < txPrev.nTime) then none
      else if txout.isEmpty && decide (.fork005 ≤ getFork E.env.fTestNet (nBestHeight + 1)) then none
      else if !moneyRange nValue || !moneyRange (nValueIn + nValue) then none
      else some (nValueIn + nValue)

/-- The second loop of `ConnectInputs`, one input: the output must be unspent and is marked. Signatures
are not checked below the last checkpoint. -/
def spendInput (nBestHeight : Int) (fLockTime : Bool) (posThisTx : CDiskTxPos) (tx : CTransaction)
    (st : MapPrevIndex × MapTxIndex) (input : CTxIn × Nat) : Option (MapPrevIndex × MapTxIndex) :=
  let prevout := input.1.prevout
  match st.1 prevout.hash with
  | none => none
  | some (txindex, txPrev) =>
    match txindex.vSpent[prevout.n.toNat]? with
    | none => none
    | some pos =>
      if !pos.isNull then none
      else if !decide (nBestHeight < E.nBlocksEstimate) &&
          !E.verifySignature fLockTime txPrev tx input.2 then none
      else
        let txindex := { txindex with vSpent := txindex.vSpent.set prevout.n.toNat posThisTx }
        some (Function.update st.1 prevout.hash (some (txindex, txPrev)),
          st.2.insert prevout.hash txindex)

def feesAreValid (pmemIndex : MemChain) (diskIndex : CDiskBlockIndex)
    (nValueIn nValuePurchases nClaim : Int) (tx : CTransaction) : Bool :=
  if tx.isCoinStake then E.stakeRewardIsValid disk diskIndex nValueIn tx
  else
    let nTxFee := nValueIn + nClaim - (tx.getValueOut + nValuePurchases)
    let pmemIndexPrev := if pmemIndex.tail = [] then pmemIndex else pmemIndex.tail
    decide (0 ≤ nTxFee) && (decide (E.minFee tx ≤ nTxFee) || E.checkFeework pmemIndexPrev tx) &&
      moneyRange nTxFee

/-- `ConnectInputs` for a block: the index entries with the spent outputs. -/
def connectInputs (nBestHeight : Int) (pmemIndex : MemChain) (diskIndex : CDiskBlockIndex)
    (fLockTime : Bool) (nValuePurchases nClaim : Int) (posThisTx : CDiskTxPos) (inputs : MapPrevIndex)
    (mapTestPool : MapTxIndex) (tx : CTransaction) : Option MapTxIndex :=
  (tx.vin.foldlM (checkInput E nBestHeight pmemIndex inputs tx) 0).bind fun nValueIn =>
    (tx.vin.zipIdx.foldlM (spendInput E nBestHeight fLockTime posThisTx tx) (inputs, mapTestPool)).bind
      fun st =>
        if feesAreValid E disk pmemIndex diskIndex nValueIn nValuePurchases nClaim tx then some st.2
        else none

end Inputs

/-- The loop of `DisconnectInputs`. It ends without an error at an input whose transaction is not
indexed. -/
def disconnectTxIns : List CTxIn → CTxDB → Option CTxDB
  | [], txdb => some txdb
  | txin :: vin, txdb =>
    match Disk.txIndex txdb.view txin.prevout.hash with
    | none => some txdb
    | some txindex =>
      if txindex.vSpent.length ≤ txin.prevout.n.toNat then none
      else
        let vSpent := txindex.vSpent.set txin.prevout.n.toNat CDiskTxPos.null
        disconnectTxIns vin (txdb.put (.tx txin.prevout.hash) (some { txindex with vSpent := vSpent }))

def disconnectInputs (txdb : CTxDB) (tx : CTransaction) : Option CTxDB :=
  if tx.isCoinBase then some txdb else disconnectTxIns tx.vin txdb

end Stealth

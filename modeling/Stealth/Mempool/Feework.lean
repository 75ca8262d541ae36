import Stealth.Chain.Inputs
import Stealth.Mempool.Pool

/-!
Fees and feework: a transaction that pays less than the minimum fee carries an Argon2 hash over a recent
block.
-/

namespace Stealth

def MAX_BLOCK_SIZE_GEN : Nat := MAX_BLOCK_SIZE / 2
def MAX_STANDARD_TX_SIZE : Nat := MAX_BLOCK_SIZE_GEN / 5
def MIN_TX_FEE : Int := 1 * CENT
def MIN_RELAY_TX_FEE : Int := 1 * CENT

def TX_FEEWORK_ABSOLUTE_LIMIT : UInt64 := 0xffffffffffffffff
def TX_FEEWORK_LIMIT : UInt64 := 0x0006ffffffffffff
def RELAY_TX_FEEWORK_LIMIT : UInt64 := 0x0006ffffffffffff
def FEEWORK_BLOCK_PARTS : Nat := 31
def FEEWORK_COST_PCT_JUMP_PER_PART : Nat := 10
def FEELESS_MCOST_MIN : Nat := 1 <<< 8
def RELAY_FEELESS_MCOST_MIN : Nat := 1 <<< 8
def FEEWORK_MAX_MULTIPLIER : Nat := 18
def FEEWORK_MAX_MCOST : Nat := FEEWORK_MAX_MULTIPLIER * FEELESS_MCOST_MIN
def FEELESS_MAX_BLOCK_SIZE : Nat := MAX_BLOCK_SIZE / 5

inductive GetMinFeeMode where
  | block | relay | send
  deriving DecidableEq, Repr

def getMinFee (nBlockSize : Nat) (mode : GetMinFeeMode) (nBytes : Nat) : Int :=
  let nBaseFee := if mode = .relay then MIN_RELAY_TX_FEE else MIN_TX_FEE
  let nMinFee : Int := (1 + nBytes / 1000) * nBaseFee
  let nNewBlockSize := nBlockSize + nBytes
  let fRaise := nBlockSize ≠ 1 ∧ MAX_BLOCK_SIZE_GEN / 2 ≤ nNewBlockSize
  if fRaise ∧ MAX_BLOCK_SIZE_GEN ≤ nNewBlockSize then MAX_MONEY
  else
    let nMinFee :=
      if fRaise then nMinFee * (MAX_BLOCK_SIZE_GEN / (MAX_BLOCK_SIZE_GEN - nNewBlockSize) : Nat)
      else nMinFee
    if moneyRange nMinFee then nMinFee else MAX_MONEY

def raiseCost (nCost : Nat) : Nat → Nat
  | 0 => nCost
  | n + 1 => raiseCost (nCost * (1000 * (100 + FEEWORK_COST_PCT_JUMP_PER_PART)) / 100000) n

def getFeeworkHardness (nBlockSize : Nat) (mode : GetMinFeeMode) (nBytes : Nat) : Nat :=
  let nBaseCost := if mode = .relay then RELAY_FEELESS_MCOST_MIN else FEELESS_MCOST_MIN
  let nNewBlockSize := nBlockSize + nBytes
  if FEELESS_MAX_BLOCK_SIZE < nNewBlockSize then 0xffffffff
  else
    min (raiseCost ((1 + nBytes / 1000) * nBaseCost)
      (FEEWORK_BLOCK_PARTS * nNewBlockSize / FEELESS_MAX_BLOCK_SIZE - 1)) 0xffffffff

inductive FeeworkStatus where
  | unchecked | ok | none
  | empty | coinbase | coinstake | insoluble | misplaced | badVersion | missing
  | blockUnknown | blockTooDeep | inputError | inputNotMain | lowMCost | highMCost
  | noHeight | noLimit | noMCost | noHash | noWork | insufficient
  deriving DecidableEq, Repr

structure Feework where
  height : Int := -1
  bytes : Nat := 0
  mcost : Nat := 0
  limit : UInt64 := 0
  work : UInt64 := 0
  hash : UInt64 := 0
  status : FeeworkStatus := .unchecked

namespace Feework

def isChecked (feework : Feework) : Bool := feework.status != .unchecked

def isOK (feework : Feework) : Bool := feework.status == .ok

def isValid (feework : Feework) : Bool := feework.status == .ok || feework.status == .none

/-- `ExtractFeework`: height, memory cost and nonce, as far as the bytes go. -/
def extractFeework (feework : Feework) (vch : Bytes) : Feework :=
  { feework with
    height := if 4 ≤ vch.length then int32Of (beValue (vch.take 4)) else feework.height
    mcost := if 8 ≤ vch.length then beValue ((vch.drop 4).take 4) else feework.mcost
    work := if 16 ≤ vch.length then UInt64.ofNat (beValue ((vch.drop 8).take 8)) else feework.work }

/-- `GetFeeworkHash`. The hash takes the memory cost, the data and the nonce. -/
def getFeeworkHash (argon2d : Nat → Bytes → UInt64 → UInt64) (ss : Bytes) (feework : Feework) : Feework :=
  { feework with
    hash :=
      if FEEWORK_MAX_MCOST < feework.mcost then TX_FEEWORK_ABSOLUTE_LIMIT
      else argon2d feework.mcost ss feework.work }

/-- `Check`. A status that is set stays. -/
def check (mcostIn : Nat) (feework : Feework) : Feework :=
  { feework with
    status :=
      if feework.isChecked then feework.status
      else if feework.mcost < mcostIn then .lowMCost
      else if FEEWORK_MAX_MCOST < feework.mcost then .highMCost
      else if feework.height < 0 then .noHeight
      else if feework.work = 0 then .noWork
      else if feework.hash = 0 then .noHash
      else if feework.limit = 0 then .noLimit
      else if feework.mcost = 0 then .noMCost
      else if feework.limit < feework.hash then .insufficient
      else .ok }

end Feework

/-- What `CheckFeework` reads of the chain: the block that the work is checked at with its ancestors and
its height, the depth of an indexed transaction, and the hash. -/
structure FeeworkCtx where
  pmemIndexBlock : MemChain
  nHeight : Int
  depthInMainChain : CTxIndex → Int
  argon2d : Nat → Bytes → UInt64 → UInt64

section CheckFeework

variable (E : ChainEnv) (disk : Disk) (mempool : Map Uint256 CTransaction) (ctx : FeeworkCtx)

/-- The loop over the outputs: the data of the last one, if it is feework. -/
def feeworkOutput : List CTxOut → Except FeeworkStatus (Option Bytes)
  | [] => .ok none
  | txout :: vout =>
    match solver txout.scriptPubKey with
    | none => .error .insoluble
    | some (.feework, vSolutions) =>
      if vout.isEmpty then .ok (some (vSolutions.headD [])) else .error .misplaced
    | some _ => feeworkOutput vout

/-- From `XST_FORKFEELESS2` on the inputs of a transaction with feework are in the main chain. -/
def feeworkInputs (fMiner : Bool) (feework : Feework) (tx : CTransaction) : Except FeeworkStatus Unit :=
  if fMiner || decide (.feeless2 ≤ getFork E.env.fTestNet feework.height) then
    match fetchBlockInputs E disk mempool ∅ tx with
    | none => .error .inputError
    | some mapInputs =>
      if tx.vin.all fun txin => (mapInputs txin.prevout.hash).any fun p =>
          decide (1 ≤ ctx.depthInMainChain p.1) then .ok ()
      else .error .inputNotMain
  else .ok ()

/-- The data that the work is done on: the block, and the transaction without feework and signatures. -/
def feeworkData (feework : Feework) (tx : CTransaction) : Bytes :=
  let pmemIndexFeeworkBlock := ctx.pmemIndexBlock.drop (ctx.nHeight - feework.height).toNat
  serializeUint256 ((pmemIndexFeeworkBlock.head?.map CBlockMemIndex.hashBlock).getD 0) ++
    { tx.blankSigs with vout := tx.vout.dropLast }.serialize

def feeworkHeight (fCheckDepth : Bool) (feework : Feework) : Except FeeworkStatus Unit :=
  if !E.env.fTestNet && decide (getFork E.env.fTestNet feework.height < .feeless) then .error .badVersion
  else if ctx.nHeight < feework.height then .error .blockUnknown
  else if fCheckDepth && decide (feework.height < ctx.nHeight - FEELESS_MAX_DEPTH) then
    .error .blockTooDeep
  else .ok ()

/-- `CheckFeework`. It returns whether the feework is valid. -/
def checkFeework (fRequired : Bool) (nBlockSize : Nat) (mode : GetMinFeeMode)
    (fCheckDepth fMiner : Bool) (feework : Feework) (tx : CTransaction) : Feework :=
  if tx.vout.isEmpty then { feework with status := .empty }
  else if tx.isCoinBase then { feework with status := .coinbase }
  else if tx.isCoinStake then { feework with status := .coinstake }
  else
    match feeworkOutput tx.vout with
    | .error status => { feework with status := status }
    | .ok none => { feework with status := if fRequired then .missing else .none }
    | .ok (some vch) =>
      if !E.env.fTestNet && decide (tx.nVersion < CTransaction.feelessVersion) then
        { feework with status := .badVersion }
      else
        let feework := feework.extractFeework vch
        match feeworkHeight E ctx fCheckDepth feework, feeworkInputs E disk mempool ctx fMiner feework tx with
        | .error status, _ => { feework with status := status }
        | .ok (), .error status => { feework with status := status }
        | .ok (), .ok () =>
          let limit := if mode = .relay then TX_FEEWORK_LIMIT else RELAY_TX_FEEWORK_LIMIT
          let feework := { feework with limit := limit }
          (feework.getFeeworkHash ctx.argon2d (feeworkData ctx feework tx)).check
            (getFeeworkHardness nBlockSize mode feework.bytes)

end CheckFeework

end Stealth

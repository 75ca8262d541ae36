import Stealth.Chain.CreateBlock
import Stealth.Mempool.Feework

/-!
`accept`: how a loose transaction gets into the memory pool. Names are registered before what depends on the
inputs is checked.
-/

namespace Stealth

def outputsAreStandard (nFork : Fork) (vout : List CTxOut) : Bool :=
  let isData := fun txout : CTxOut => (solver txout.scriptPubKey).any fun t => t.1 == .nullData
  let nDataOut := vout.countP isData
  vout.all (fun txout => (solver txout.scriptPubKey).isSome &&
      (isData txout || !(txout.nValue == 0 && decide (nFork < .purchase2)))) &&
    decide (nDataOut ≤ vout.length - nDataOut)

def CTransaction.isStandard (fTestNet : Bool) (nBestHeight now nNewHeight : Int) (tx : CTransaction) :
    Bool :=
  let nFork := getFork fTestNet nNewHeight
  decide (tx.nVersion ≤ CTransaction.feelessVersion) &&
    (decide (nFork < .fork005) ||
      (!tx.vout.isEmpty && tx.isFinal (if nNewHeight = 0 then nBestHeight else nNewHeight) now &&
        !(tx.hasTimestamp && decide (futureDrift now < tx.nTime.toNat)) &&
        decide (tx.serialize.length < MAX_STANDARD_TX_SIZE))) &&
    tx.vin.all (fun txin => decide (txin.scriptSig.length ≤ 500) && isPushOnly txin.scriptSig) &&
    outputsAreStandard nFork tx.vout

/-- `ScriptSigArgsExpected`, nothing for outputs that cannot be spent. -/
def scriptSigArgsExpected : TxnOutType → List Bytes → Option Nat
  | .pubkey, _ => some 1
  | .pubkeyhash, _ | .claim, _ => some 2
  | .multisig, vSolutions => (vSolutions.head?.bind List.head?).map fun m => m.toNat + 1
  | .scripthash, _ => some 1
  | _, _ => none

def inputIsStandard (ctx : EvalContext) (prevScript scriptSig : CScript) : Bool :=
  match solver prevScript, evalScript ctx [] scriptSig with
  | some (whichType, vSolutions), some stack =>
    match scriptSigArgsExpected whichType vSolutions with
    | none => false
    | some nArgsExpected =>
      if whichType = .scripthash then
        match stack.head?.bind solver with
        | none | some (.scripthash, _) => false
        | some (whichType2, vSolutions2) =>
          match scriptSigArgsExpected whichType2 vSolutions2 with
          | none => false
          | some tmpExpected => stack.length == nArgsExpected + tmpExpected
      else stack.length == nArgsExpected
  | _, _ => false

def areInputsStandard (crypto : Crypto) (nFork : Fork) (mapInputs : MapPrevTx) (tx : CTransaction) : Bool :=
  tx.isCoinBase || tx.vin.zipIdx.all fun p =>
    match getOutputFor mapInputs p.1 with
    | none => false
    | some prev =>
      inputIsStandard ⟨crypto, nFork, tx, UInt32.ofNat p.2, Flags.none, 0⟩ prev.scriptPubKey p.1.scriptSig

def CTransaction.hasFeework (tx : CTransaction) : Bool :=
  tx.vout.any fun txout => (solver txout.scriptPubKey).any fun t => t.1 == .feework

/-- Why `accept` returns false. Missing inputs are reported. -/
inductive Rejection where
  | failed | missingInputs
  deriving DecidableEq, Repr

/-- What `accept` reads besides the pool: the chain at its best block, and the registry. -/
structure AcceptEnv (hash : Bytes → Uint256) where
  E : ChainEnv
  hash_eq : E.hash = hash
  crypto : Crypto
  disk : Disk
  registry : QPRegistry
  nBestHeight : Int
  pindexBest : CBlockIndex
  pmemIndexBest : MemChain
  blockOf : Uint256 → Option Uint256
  isInMainChain : Uint256 → Option Bool
  depthInMainChain : CTxIndex → Int
  argon2d : Nat → Bytes → UInt64 → UInt64

namespace AcceptEnv

variable {hash : Bytes → Uint256} (v : AcceptEnv hash) (pool : CTxMemPool)

def checkCtx : CheckCtx where
  env := v.E.env
  now := v.E.now
  nBestHeight := v.nBestHeight
  blockOf h := if pool.mapTx.contains h then some 0 else v.blockOf h
  isInMainChain := v.isInMainChain

def feeworkCtx : FeeworkCtx where
  pmemIndexBlock := v.pmemIndexBest
  nHeight := v.nBestHeight
  depthInMainChain := v.depthInMainChain
  argon2d := v.argon2d

def nNewHeight : Int := v.nBestHeight + 1

def newFork : Fork := getFork v.E.env.fTestNet v.nNewHeight

def purchases (tx : CTransaction) : Option (Map Bytes QposPurchase) :=
  checkPurchases (v.checkCtx pool) v.registry
    (getStakerPrice v.E.env.fTestNet (UInt32.ofNat v.registry.getNumberQualifiedInternal)
      v.pindexBest.nMoneySupply v.newFork) tx

def isNew (fCheckInputs : Bool) (pool : CTxMemPool) (tx : CTransaction) : Bool :=
  checkTransaction v.E.env.fTestNet v.nNewHeight tx && !tx.isCoinBase && !tx.isCoinStake &&
    (v.E.env.fTestNet || tx.isStandard v.E.env.fTestNet v.nBestHeight v.E.now v.nNewHeight) &&
    !pool.mapTx.contains (tx.getHash hash) &&
    !(fCheckInputs && (v.disk.txIndex (tx.getHash hash)).isSome) &&
    !tx.prevouts.any fun o => pool.mapNextTx.contains o

def namesAreFree (h : Uint256) (mapNames : Map Bytes QposPurchase) : Bool :=
  mapNames.isEmpty ||
    (!pool.mapRegistrations.contains h &&
      !pool.mapRegistrations.toList.any fun e => e.2.any fun name => mapNames.contains name)

/-- The checks before anything is written: the purchases of a transaction that passes them. -/
def checkNames (fCheckInputs : Bool) (pool : CTxMemPool) (tx : CTransaction) :
    Option (Map Bytes QposPurchase) :=
  if v.isNew fCheckInputs pool tx then
    (v.purchases pool tx).filter fun mapNames => namesAreFree pool (tx.getHash hash) mapNames
  else none

/-- Where `FetchInputs` finds a previous transaction: the index of the chain is read first. -/
def readPrev (h : Uint256) : Option (CTxIndex × CTransaction) :=
  match v.disk.txIndex h with
  | none => pool.mapTx[h]?.map fun (txPrev : CTransaction) =>
    (CTxIndex.unspent CDiskTxPos.null txPrev.vout.length, txPrev)
  | some txindex =>
    (if txindex.pos = ⟨1, 1, 1⟩ then pool.mapTx[h]? else v.E.readTx txindex.pos).map fun txPrev =>
      (txindex, txPrev)

def fetchPoolInput (inputs : MapPrevIndex) (txin : CTxIn) : Option MapPrevIndex :=
  if (inputs txin.prevout.hash).isSome then some inputs
  else (v.readPrev pool txin.prevout.hash).map fun p => Function.update inputs txin.prevout.hash (some p)

/-- `FetchInputs` for the pool. An output that does not exist makes the transaction invalid. -/
def fetchPoolInputs (tx : CTransaction) : Except Rejection MapPrevIndex :=
  match tx.vin.foldlM (v.fetchPoolInput pool) fun _ => none with
  | none => .error .missingInputs
  | some inputs => if tx.vin.all (outputExists inputs) then .ok inputs else .error .failed

/-- A claim is the only one of the pool for its key, and the registry allows it. -/
def claimIsFree (claim : QposClaim) : Bool :=
  decide (claim.value ≤ 0) ||
    (!(pool.mapClaims.toList.any fun e => e.2 == claim.key) &&
      v.registry.canClaim v.E.env v.E.now claim.key claim.value)

def operationsPass (mapInputs : MapPrevTx) (tx : CTransaction) : Bool :=
  let vDeets := getQPTxDetails v.E.env.nfts hash 0 tx
  vDeets.isEmpty || (!tx.hasFeework &&
    (checkQPoS (v.checkCtx pool) v.registry mapInputs (UInt32.ofNat v.E.now.toNat) v.pindexBest tx vDeets
      QposContainers.empty).isSome)

/-- The fees of `ConnectInputs`: a fee that is too low for a block needs feework. -/
def connectFees (nTxFee : Int) (feework : Feework) (tx : CTransaction) : Option Feework :=
  if nTxFee < 0 then none
  else if nTxFee < getMinFee 1 .block 0 then
    let feework :=
      if feework.isChecked then feework
      else checkFeework v.E v.disk pool.mapTx v.feeworkCtx true 1 .block true false
        { feework with bytes := tx.serialize.length } tx
    if feework.isOK && moneyRange nTxFee then some feework else none
  else if moneyRange nTxFee then some feework else none

/-- `ConnectInputs` for the pool, with the feework after it. Nothing is written back, and signatures are
checked as above the last checkpoint. -/
def connectPoolInputs (inputs : MapPrevIndex) (nValuePurchases nClaim : Int) (feework : Feework)
    (tx : CTransaction) : Option Feework :=
  (tx.vin.foldlM (checkInput v.E v.nBestHeight v.pmemIndexBest inputs tx) 0).bind fun nValueIn =>
    (tx.vin.zipIdx.foldlM (spendInput v.E v.E.nBlocksEstimate (decide (.fork005 ≤ v.newFork)) ⟨1, 1, 1⟩ tx)
      (inputs, ∅)).bind fun _ =>
        v.connectFees pool (nValueIn + nClaim - (tx.getValueOut + nValuePurchases)) feework tx

/-- The checks that `fCheckInputs` asks for: inputs, fees and signatures. -/
def connectChecks (inputs : MapPrevIndex) (nValuePurchases nClaim : Int) (tx : CTransaction) :
    Option Feework :=
  let feework : Feework := { bytes := tx.serialize.length }
  if !areInputsStandard v.crypto (getFork v.E.env.fTestNet v.nBestHeight) inputs.txs tx &&
      !v.E.env.fTestNet then none
  else
    let nFees := getValueIn inputs tx + nClaim - (tx.getValueOut + nValuePurchases)
    let fLow := decide (nFees < getMinFee 1000 .relay tx.serialize.length)
    let feework :=
      if fLow then
        checkFeework v.E v.disk pool.mapTx v.feeworkCtx true 1000 .relay true false feework tx
      else feework
    if fLow && !feework.isOK then none
    else v.connectPoolInputs pool inputs nValuePurchases nClaim feework tx

/-- The checks after the names are registered, with the feework of a transaction that passes them. -/
def checkRest (fCheckInputs : Bool) (pool : CTxMemPool) (nValuePurchases : Int) (tx : CTransaction) :
    Except Rejection Feework :=
  match v.fetchPoolInputs pool tx with
  | .error e => .error e
  | .ok inputs =>
    match checkClaim (v.checkCtx pool) v.registry inputs.txs tx with
    | none => .error .failed
    | some claim =>
      if !v.claimIsFree pool claim || !v.operationsPass pool inputs.txs tx then .error .failed
      else
        match
          (if fCheckInputs then v.connectChecks pool inputs nValuePurchases claim.value tx
            else some { bytes := tx.serialize.length } : Option Feework) with
        | none => .error .failed
        | some feework =>
          if feework.isChecked then .ok feework
          else
            let feework :=
              checkFeework v.E v.disk pool.mapTx v.feeworkCtx false 1 .block true false feework tx
            if feework.isValid then .ok feework else .error .failed

end AcceptEnv

namespace CTxMemPool

def register (pool : CTxMemPool) (h : Uint256) (mapNames : Map Bytes QposPurchase) : CTxMemPool :=
  if mapNames.isEmpty then pool
  else { pool with mapRegistrations := pool.mapRegistrations.insert h mapNames.keys }

def purchasesValue (mapNames : Map Bytes QposPurchase) : Int := (mapNames.toList.map fun e => e.2.value).sum

def store (pool : CTxMemPool) (h : Uint256) (tx : CTransaction) (feework : Feework) : CTxMemPool :=
  if feework.isOK then (pool.addUnchecked h tx).addFeeless feework.height h else pool.addUnchecked h tx

variable {hash : Bytes → Uint256}

def accept (v : AcceptEnv hash) (fCheckInputs : Bool) (pool : CTxMemPool) (tx : CTransaction) :
    Except Rejection Unit × CTxMemPool :=
  match v.checkNames fCheckInputs pool tx with
  | none => (.error .failed, pool)
  | some mapNames =>
    let pool := pool.register (tx.getHash hash) mapNames
    match v.checkRest fCheckInputs pool (purchasesValue mapNames) tx with
    | .error e => (.error e, pool)
    | .ok feework => (.ok (), pool.store (tx.getHash hash) tx feework)

end CTxMemPool

end Stealth

import Stealth.Qpos.Extract
import Stealth.Qpos.Update

/-!
The checks of qPoS operations against a registry, and `CheckQPoS`, which collects what a block has seen.
-/

namespace Stealth

/-- What the checks read besides the registry: the local clock, the best height, and where the
transactions of the chain are. -/
structure CheckCtx where
  env : QPEnv
  now : Int
  nBestHeight : Int
  blockOf : Uint256 → Option Uint256
  isInMainChain : Uint256 → Option Bool

namespace CheckCtx

def fork (ctx : CheckCtx) (nHeight : Int) : Fork := getFork ctx.env.fTestNet nHeight

def view (ctx : CheckCtx) : TxView := ⟨ctx.fork ctx.nBestHeight, ctx.blockOf, ctx.isInMainChain⟩

end CheckCtx

section Checks

variable (ctx : CheckCtx) (r : QPRegistry) (mapInputs : MapPrevTx) (tx : CTransaction)

def validateSignatory (vKeys : List CPubKey) : Bool :=
  match getSignatory ctx.view mapInputs tx 0 with
  | none => false
  | some keySignatory => !keySignatory.isEmpty && vKeys.contains keySignatory

def getKeyOfType (nStakerID : Nat) : QPKeyType → Option CPubKey
  | .owner => r.getOwnerKey nStakerID
  | .manager => r.getManagerKey nStakerID
  | .delegate => r.getDelegateKey nStakerID
  | .controller => r.getControllerKey nStakerID

def validateStakerSignatory (nStakerID : Nat) (fKeyTypes : List QPKeyType) : Bool :=
  match fKeyTypes.mapM (getKeyOfType r nStakerID) with
  | none => false
  | some vKeys => validateSignatory ctx mapInputs tx vKeys

def MIN_TXOUT_AMOUNT : Int := CENT

/-- `GetStakerPrice` for `N` qualified stakers, without the allowance for waiting. -/
def getStakerPrice (fTestNet : Bool) (N : UInt32) (nSupply : Int) (nFork : Fork) : Int :=
  let kScale : Int := if fTestNet then 4000 else 12000
  let kIncentive : Int := if fTestNet then 200 else 64
  let kTier : UInt32 := if fTestNet then 64 - 22 else 32 - 11
  let blen : Int := (bitLength (N + kTier)).toNat
  if .purchase3 ≤ nFork then
    COIN * ((((nSupply.tdiv COIN).tdiv kScale) * (blen - 1)) + kIncentive * N.toNat)
  else (nSupply.tdiv kScale) * (blen - 1) + kIncentive * N.toNat

/-- The name that a purchase takes, and the purchase with the character it selects. -/
def purchaseName (env : QPEnv) (r : QPRegistry) (purchase : QposPurchase) :
    Option (Bytes × QposPurchase) :=
  if 0 < purchase.nft then
    (r.nftKeyIfAvailable env purchase.nft).map fun sLC =>
      (sLC, { purchase with sAlias := QPRegistry.nickname env purchase.nft })
  else
    match r.aliasIsAvailableInternal purchase.sAlias with
    | none => none
    | some sLC =>
      let nft := env.nfts.mapNftLookup.getD (toLowercaseSafe sLC) 0
      if nft = 0 then some (sLC, { purchase with nft := 0 })
      else if r.nftKeyIfAvailable env nft = some sLC then
        some (sLC, { purchase with nft := nft, sAlias := QPRegistry.nickname env nft })
      else none

def purchaseIsValid (nStakerPrice : Int) (t : TxnOutType) (purchase : QposPurchase) : Bool :=
  (if t = .purchase1 then purchase.keys.length == 1
    else decide (3 ≤ purchase.keys.length) && decide (purchase.keys.length ≤ 4)) &&
    decide (nStakerPrice ≤ purchase.value) && decide (purchase.value ≤ nStakerPrice * 2) &&
    decide (purchase.pcm ≤ 100000)

def checkPurchase (nStakerPrice : Int) (mapRet : Map Bytes QposPurchase) (txout : CTxOut) :
    Option (Map Bytes QposPurchase) :=
  match solver txout.scriptPubKey with
  | none => none
  | some (t, vSolutions) =>
    if t ≠ .purchase1 ∧ t ≠ .purchase4 then some mapRet
    else if ctx.fork (ctx.nBestHeight + 1) < .purchase ∨ txout.nValue ≠ 0 ∨ vSolutions = [] then none
    else
      let purchase := extractPurchase ctx.env.nfts (vSolutions.headD [])
      if purchaseIsValid nStakerPrice t purchase then
        match purchaseName ctx.env r purchase with
        | none => none
        | some (sLC, purchase) =>
          if mapRet.contains sLC then none else some (mapRet.insert sLC purchase)
      else none

def checkPurchases (nStakerPrice : Int) (tx : CTransaction) : Option (Map Bytes QposPurchase) :=
  tx.vout.foldlM (checkPurchase ctx r nStakerPrice) ∅

/-- The key types seen so far, the staker they belong to, and the changes. -/
structure SetKeysState where
  fKeyTypes : List QPKeyType
  nStakerID : Nat
  vRet : List QposSetKey

/-- The owner is changed last, and the manager before nothing but the owner. -/
def keyOrderIsValid (fKeyTypes : List QPKeyType) (fThis : QPKeyType) : Bool :=
  !fKeyTypes.contains fThis && !(fThis != .owner && fKeyTypes.contains .owner) &&
    !(fThis != .manager && fThis != .owner && fKeyTypes.contains .manager)

def checkSetKey (st : SetKeysState) (txout : CTxOut) : Option SetKeysState :=
  match solver txout.scriptPubKey with
  | none => none
  | some (t, vSolutions) =>
    match keyTypeOf t with
    | none => some st
    | some fThis =>
      if ctx.fork ctx.nBestHeight < .purchase ∨ txout.nValue ≠ 0 ∨ tx.vin.length ≠ 1 then none
      else if !keyOrderIsValid st.fKeyTypes fThis then none
      else
        let setkey := extractSetKey fThis (vSolutions.headD [])
        if fThis = .delegate ∧ setkey.pcm > 100000 then none
        else if st.nStakerID = 0 then
          if r.isQualifiedStaker setkey.id then
            some ⟨fThis :: st.fKeyTypes, setkey.id, st.vRet ++ [setkey]⟩
          else none
        else if setkey.id ≠ st.nStakerID then none
        else some ⟨fThis :: st.fKeyTypes, st.nStakerID, st.vRet ++ [setkey]⟩

def checkSetKeys : Option (List QposSetKey) :=
  match tx.vout.foldlM (checkSetKey ctx r tx) ⟨[], 0, []⟩ with
  | none => none
  | some st =>
    if st.fKeyTypes = [] then none
    else
      let fAuthorities := if st.fKeyTypes.contains .owner then [.owner] else [.owner, .manager]
      if validateStakerSignatory ctx r mapInputs tx st.nStakerID fAuthorities then some st.vRet
      else none

/-- `CheckSetState`, one output: the staker whose state changes, 0 for none so far. -/
def checkSetStateOut (nID : Nat) (txout : CTxOut) : Option Nat :=
  match solver txout.scriptPubKey with
  | none => none
  | some (t, vSolutions) =>
    if t ≠ .enable ∧ t ≠ .disable then some nID
    else if ctx.fork ctx.nBestHeight < .purchase ∨ txout.nValue ≠ 0 ∨ nID ≠ 0 ∨ tx.vin.length ≠ 1 then
      none
    else
      let nID := extractSetState (vSolutions.headD [])
      if r.isQualifiedStaker nID &&
          validateStakerSignatory ctx r mapInputs tx nID [.owner, .manager, .controller] then
        some nID
      else none

def checkSetState : Option Nat :=
  tx.vout.foldlM (checkSetStateOut ctx r mapInputs tx) 0

def QP_BLOCKS_PER_DAY : Int := 17280

/-- Every output is standard, and a claim is the only output of a transaction with one input. -/
def claimShapeIsValid : Bool :=
  tx.vout.all fun txout =>
    match solver txout.scriptPubKey with
    | none => false
    | some (.claim, _) => tx.vin.length == 1 && tx.vout.length == 1
    | some _ => true

def findClaim : Option QposClaim :=
  tx.vout.findSome? fun txout =>
    match solver txout.scriptPubKey with
    | some (.claim, vSolutions) => some (extractClaim (vSolutions.headD []))
    | _ => none

/-- `CheckClaim`. A transaction without a claim passes with the value 0. -/
def checkClaim : Option QposClaim :=
  if !claimShapeIsValid tx then none
  else
    match findClaim tx with
    | none => some ⟨[], 0⟩
    | some claim =>
      if !ctx.env.fTestNet && decide (ctx.fork (ctx.nBestHeight - QP_BLOCKS_PER_DAY) < .qpos) then none
      else if claim.value < MIN_TXOUT_AMOUNT then none
      else if !r.canClaim ctx.env ctx.now claim.key claim.value then none
      else if !validateSignatory ctx mapInputs tx [claim.key] then none
      else some claim

structure SetMetasState where
  nStakerID : Nat
  vRet : List QposSetMeta

/-- `CheckSetMetas`, one output. The signatory is checked once, since all changes are for one
staker. -/
def checkSetMeta (st : SetMetasState) (txout : CTxOut) : Option SetMetasState :=
  match solver txout.scriptPubKey with
  | none => none
  | some (t, vSolutions) =>
    if t ≠ .setMeta then some st
    else if ctx.fork ctx.nBestHeight < .purchase ∨ txout.nValue ≠ 0 ∨ tx.vin.length ≠ 1 then none
    else
      let setmeta := extractSetMeta (vSolutions.headD [])
      if st.nStakerID = 0 ∧ !r.isQualifiedStaker setmeta.id then none
      else if st.nStakerID ≠ 0 ∧ setmeta.id ≠ st.nStakerID then none
      else if !checkMetaKey setmeta.key || !checkMetaValue setmeta.value then none
      else if st.vRet.any fun m => m.key == setmeta.key then none
      else if st.vRet = [] ∧ !validateStakerSignatory ctx r mapInputs tx setmeta.id
          [.owner, .manager, .delegate] then none
      else some ⟨setmeta.id, st.vRet ++ [setmeta]⟩

def checkSetMetas : Option (List QposSetMeta) :=
  (tx.vout.foldlM (checkSetMeta ctx r mapInputs tx) ⟨0, []⟩).map SetMetasState.vRet

/-- The cases of the `switch` over operation types. -/
inductive OpKind where
  | purchase | setKey | setState | claim | setMeta
  deriving DecidableEq, Repr

def opKind : TxnOutType → Option OpKind
  | .purchase1 | .purchase4 => some .purchase
  | .setOwner | .setManager | .setDelegate | .setController => some .setKey
  | .enable | .disable => some .setState
  | .claim => some .claim
  | .setMeta => some .setMeta
  | _ => none

def hasKind (κ : OpKind) (deet : QPTxDetails) : Bool := opKind deet.t == some κ

/-- What a block has seen so far. The container of metadata changes is never written. -/
structure QposContainers where
  mapPurchases : Map Bytes QposPurchase
  mapSetKeys : Map Nat (List QposSetKey)
  mapClaims : Map CPubKey (List QposClaim)

def QposContainers.empty : QposContainers := ⟨∅, ∅, ∅⟩

/-- The kinds of operations that were checked in the transaction at hand. -/
structure CheckedKinds where
  fPurchases : Bool := false
  fSetKeys : Bool := false
  fSetState : Bool := false
  fClaim : Bool := false
  fSetMetas : Bool := false

/-- Purchases of one transaction join those before, unless a name is taken. -/
def mergePurchases (mapPurchases mapTxPrchs : Map Bytes QposPurchase) :
    Option (Map Bytes QposPurchase) :=
  if mapTxPrchs.toList.any fun e => mapPurchases.contains e.1 then none
  else some (mapTxPrchs.toList.foldl (fun m e => m.insert e.1 e.2) mapPurchases)

def mergeSetKeys (mapSetKeys : Map Nat (List QposSetKey)) :
    List QposSetKey → Option (Map Nat (List QposSetKey))
  | [] => none
  | setkey :: rest =>
    if mapSetKeys.contains setkey.id then none
    else some (mapSetKeys.insert setkey.id (setkey :: rest))

def mergeClaim (nTime : UInt32) (mapClaims : Map CPubKey (List QposClaim)) (claim : QposClaim) :
    Option (Map CPubKey (List QposClaim)) :=
  let vClaims := mapClaims.getD claim.key []
  let nTotal := vClaims.foldl (fun n c => n + c.value) claim.value
  if mapClaims.contains claim.key &&
      !r.canClaimInternal ctx.env ctx.now claim.key nTotal nTime.toNat then none
  else some (mapClaims.insert claim.key (vClaims ++ [claim]))

end Checks

section CheckQPoS

variable (ctx : CheckCtx) (r : QPRegistry) (mapInputs : MapPrevTx) (nTime : UInt32)
  (pindexPrev : CBlockIndex)

/-- The price that `CheckQPoS` asks for a purchase in the block after `pindexPrev`. -/
def nextStakerPrice : Int :=
  getStakerPrice ctx.env.fTestNet (UInt32.ofNat r.getNumberQualifiedInternal) pindexPrev.nMoneySupply
    (ctx.fork (pindexPrev.nHeight + 1))

def checkDeet (tx : CTransaction) (st : CheckedKinds × QposContainers) (deet : QPTxDetails) :
    Option (CheckedKinds × QposContainers) :=
  let (k, c) := st
  match opKind deet.t with
  | some .purchase =>
    if k.fPurchases then some (k, c)
    else
      match checkPurchases ctx r (nextStakerPrice ctx r pindexPrev) tx with
      | none => none
      | some mapTxPrchs =>
        (mergePurchases c.mapPurchases mapTxPrchs).map fun m =>
          ({ k with fPurchases := true }, { c with mapPurchases := m })
  | some .setKey =>
    if k.fSetKeys then some (k, c)
    else
      match checkSetKeys ctx r mapInputs tx with
      | none => none
      | some vSetKeys =>
        (mergeSetKeys c.mapSetKeys vSetKeys).map fun m =>
          ({ k with fSetKeys := true }, { c with mapSetKeys := m })
  | some .setState =>
    if k.fSetState then none
    else (checkSetState ctx r mapInputs tx).map fun _ => ({ k with fSetState := true }, c)
  | some .claim =>
    if k.fClaim then none
    else
      match checkClaim ctx r mapInputs tx with
      | none => none
      | some claim =>
        (mergeClaim ctx r nTime c.mapClaims claim).map fun m =>
          ({ k with fClaim := true }, { c with mapClaims := m })
  | some .setMeta =>
    if k.fSetMetas then some (k, c)
    else
      match checkSetMetas ctx r mapInputs tx with
      | none | some [] => none
      | some _ => some ({ k with fSetMetas := true }, c)
  | none => none

/-- `CheckQPoS`: the containers after a transaction with the given operations. -/
def checkQPoS (tx : CTransaction) (vDeets : List QPTxDetails) (c : QposContainers) :
    Option QposContainers :=
  (vDeets.foldlM (checkDeet ctx r mapInputs nTime pindexPrev tx) ({}, c)).map Prod.snd

end CheckQPoS

end Stealth

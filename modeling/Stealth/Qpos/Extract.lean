import Stealth.Script.Signatory
import Stealth.Qpos.Registry

/-! The qPoS operations that the outputs of a transaction carry, and `GetQPTxDetails`. -/

namespace Stealth

structure QposPurchase where
  sAlias : Bytes
  keys : List CPubKey
  pcm : Int
  value : Int
  nft : Nat
  deriving DecidableEq

inductive QPKeyType where
  | owner | manager | delegate | controller
  deriving DecidableEq, Repr

structure QposSetKey where
  keytype : QPKeyType
  id : Nat
  key : CPubKey
  pcm : Nat
  deriving DecidableEq

structure QposClaim where
  key : CPubKey
  value : Int
  deriving DecidableEq

structure QposSetMeta where
  id : Nat
  key : Bytes
  value : Bytes
  deriving DecidableEq

def keyTypeOf : TxnOutType → Option QPKeyType
  | .setOwner => some .owner
  | .setManager => some .manager
  | .setDelegate => some .delegate
  | .setController => some .controller
  | _ => none

def int32Of (n : Nat) : Int := (Int32.ofNat n).toInt

def int64Of (n : Nat) : Int := (Int64.ofNat n).toInt

def takeKeys : Nat → Bytes → List CPubKey × Bytes
  | 0, b => ([], b)
  | n + 1, b =>
    if b.length < 33 then ([], b)
    else
      let (keys, rest) := takeKeys n (b.drop 33)
      (b.take 33 :: keys, rest)

/-- The number that decimal digits denote, last digit first, and the place value reached. -/
def decimalNft : Bytes → Nat → Nat → Nat × Nat
  | [], nft, k => (nft, k)
  | d :: ds, nft, k =>
    let nft := nft + k * (d.toNat - 48)
    if nft > 100000 then (nft, k) else decimalNft ds nft (k * 10)

/-- The character that an alias selects: by its digits, or by its lower case name. Digits leave the
nickname of the character with the place value as identifier. -/
def nftOfAlias (nfts : NftTable) (sAlias : Bytes) : Nat × Bytes :=
  if sAlias.all isDigitByte then
    let (nft, k) := decimalNft sAlias.reverse 0 1
    (nft, (nfts.mapNfts[k]?.map QPNft.strNickname).getD sAlias)
  else (nfts.mapNftLookup.getD (toLowercaseSafe sAlias) 0, sAlias)

def extractPurchase (nfts : NftTable) (vch : Bytes) : QposPurchase :=
  let (keys, rest) := takeKeys vch.length (vch.drop 8)
  let fPcm := keys.length == 3 || keys.length == 4
  let sAlias := untilZero (if fPcm then rest.drop 4 else rest)
  let (nft, sAlias) := nftOfAlias nfts sAlias
  { sAlias := sAlias
    keys := keys
    pcm := if fPcm then int32Of (beValue (rest.take 4)) else 0
    value := int64Of (beValue (vch.take 8))
    nft := nft }

def extractSetKey (keytype : QPKeyType) (vch : Bytes) : QposSetKey where
  keytype := keytype
  id := beValue (vch.take 4)
  key := (vch.drop 4).take 33
  pcm := if keytype = .delegate then beValue ((vch.drop 37).take 4) else 0

def extractSetState (vch : Bytes) : Nat := beValue (vch.take 4)

def extractClaim (vch : Bytes) : QposClaim where
  key := vch.take 33
  value := int64Of (beValue ((vch.drop 33).take 8))

def extractSetMeta (vch : Bytes) : QposSetMeta where
  id := beValue (vch.take 4)
  key := metaKeyOf vch
  value := metaValueOf vch

/-- The record of an output of the given type, or none when the type is no qPoS operation. -/
def detailsOf (nfts : NftTable) (t : TxnOutType) (vch : Bytes) : Option QPTxDetails :=
  match t with
  | .purchase1 | .purchase4 =>
    let purchase := extractPurchase nfts vch
    some { t := t, sAlias := purchase.sAlias, keys := purchase.keys, pcm := purchase.pcm,
           value := purchase.value, id := purchase.nft }
  | .setOwner | .setManager | .setDelegate | .setController =>
    (keyTypeOf t).map fun keytype =>
      let setkey := extractSetKey keytype vch
      { t := t, id := setkey.id, keys := [setkey.key], pcm := int32Of setkey.pcm }
  | .enable | .disable => some { t := t, id := extractSetState vch }
  | .claim =>
    let claim := extractClaim vch
    some { t := t, keys := [claim.key], value := claim.value }
  | .setMeta =>
    let setmeta := extractSetMeta vch
    some { t := t, id := setmeta.id, metaKey := setmeta.key, metaValue := setmeta.value }
  | _ => none

def outputDetails (nfts : NftTable) (hashBlock hashTx : Uint256) (nOut : Nat) (txout : CTxOut) :
    Option QPTxDetails :=
  match solver txout.scriptPubKey with
  | none => none
  | some (t, vSolutions) =>
    (detailsOf nfts t (vSolutions.headD [])).map fun deet =>
      { deet with hash := hashBlock, txid := hashTx, n := nOut }

def getQPTxDetails (nfts : NftTable) (hash : Bytes → Uint256) (hashBlock : Uint256)
    (tx : CTransaction) : List QPTxDetails :=
  (tx.vout.mapIdx (outputDetails nfts hashBlock (tx.getHash hash))).filterMap id

end Stealth

import Stealth.ChainParams

/-! Output types, the operation records of a block, aliases, and the character table. -/

namespace Stealth

inductive TxnOutType where
  | nonstandard | pubkey | pubkeyhash | scripthash | multisig
  | purchase1 | purchase4 | setOwner | setManager | setDelegate | setController
  | enable | disable | claim | setMeta
  | feework | nullData
  deriving DecidableEq, Repr

/-- One qPoS operation of a block, in the form `GetQPTxDetails` stores it in the block index. -/
structure QPTxDetails where
  t : TxnOutType
  id : Nat := 0
  sAlias : Bytes := []
  keys : List CPubKey := []
  pcm : Int := 0
  value : Int := 0
  metaKey : Bytes := []
  metaValue : Bytes := []
  hash : Uint256 := 0
  txid : Uint256 := 0
  n : Int := 0
  deriving DecidableEq

def QP_MIN_ALIAS_LENGTH : Nat := 3
def QP_MAX_ALIAS_LENGTH : Nat := 16

def isLowerByte (c : UInt8) : Bool := 97 ≤ c && c ≤ 122
def isUpperByte (c : UInt8) : Bool := 65 ≤ c && c ≤ 90
def isDigitByte (c : UInt8) : Bool := 48 ≤ c && c ≤ 57

def toLowercaseSafe (s : Bytes) : Bytes :=
  s.map fun c => if isUpperByte c then c + 32 else c

def aliasIsValid (sAlias : Bytes) : Bool :=
  if sAlias.length < QP_MIN_ALIAS_LENGTH ∨ sAlias.length > QP_MAX_ALIAS_LENGTH then false
  else
    match sAlias with
    | [] => false
    | c :: rest =>
      (isLowerByte c || isUpperByte c) &&
        rest.all fun c => isLowerByte c || isUpperByte c || isDigitByte c

def QP_MAX_META_KEY_LENGTH : Nat := 16
def QP_MAX_META_VALUE_LENGTH : Nat := 40

def metaKeyCertifiedNode : Bytes := [99, 101, 114, 116, 105, 102, 105, 101, 100, 95, 110, 111, 100, 101]

/-- `CheckMetaKey` finds the key in `mapMetaKeys`, which has one entry. -/
def checkMetaKey (sKey : Bytes) : Bool := sKey == metaKeyCertifiedNode

/-- `CheckMetaValue`: letters, digits and the characters `._: <>/@#,+-`. -/
def checkMetaValue (sValue : Bytes) : Bool :=
  decide (sValue.length ≤ QP_MAX_META_VALUE_LENGTH) &&
    sValue.all fun c => isLowerByte c || isUpperByte c || isDigitByte c ||
      [46, 95, 58, 32, 60, 62, 47, 64, 35, 44, 43, 45].contains c

/-- The fields of a character that the registry reads. -/
structure QPNft where
  strCharKey : Bytes
  strNickname : Bytes
  deriving DecidableEq

/-- The compiled-in character tables `mapNfts` and `mapNftLookup`. -/
structure NftTable where
  mapNfts : Map Nat QPNft
  mapNftLookup : Map Bytes Nat

end Stealth

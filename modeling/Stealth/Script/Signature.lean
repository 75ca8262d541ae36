import Stealth.Chain.SignatureHash

/-!
Signatures and public keys on the script stack: their encodings and `CheckSig`.
-/

namespace Stealth

/-- The cryptographic primitives that the program takes from its libraries. `verify` is
`CKey::SetPubKey` followed by `CKey::Verify`. -/
structure Crypto where
  ripemd160 : Bytes → Bytes
  sha1 : Bytes → Bytes
  sha256 : Bytes → Bytes
  verify : CPubKey → Uint256 → Bytes → Bool

namespace Crypto

def hash160 (c : Crypto) (vch : Bytes) : Bytes := c.ripemd160 (c.sha256 vch)

def hash (c : Crypto) (vch : Bytes) : Uint256 :=
  BitVec.ofNat 256 (leValue (c.sha256 (c.sha256 vch)))

end Crypto

abbrev Flags := UInt32

namespace Flags

def none : Flags := 0
def noCache : Flags := 0x1
def nullDummy : Flags := 0x2
def discourageUpgradableNops : Flags := 0x4
def strictEnc : Flags := 0x8
def allowEmptySig : Flags := 0x10
def fixHashType : Flags := 0x20
def checkLockTimeVerify : Flags := 0x40

def mandatory : Flags :=
  nullDummy ||| strictEnc ||| allowEmptySig ||| fixHashType ||| checkLockTimeVerify

def standard : Flags := mandatory ||| discourageUpgradableNops

def has (flags flag : Flags) : Bool := flags &&& flag != 0

/-- The flags that `ConnectBlock` requires of the block after height `nBestHeight`. -/
def ofBlock (nFork : Fork) : Flags :=
  if nFork < .fork005 then (noCache ||| standard) &&& ~~~checkLockTimeVerify
  else noCache ||| standard

end Flags

def beValue (bs : Bytes) : Nat := leValue bs.reverse

def maxModHalfOrder : Nat := 0x7FFFFFFFFFFFFFFFFFFFFFFFFFFFFFFF5D576E7357A4501DDFE92F46681B20A0

def maxModOrder : Nat := 0xFFFFFFFFFFFFFFFFFFFFFFFFFFFFFFFEBAAEDCE6AF48A03BBFD25E8CD0364140

def checkSignatureElement (vch : Bytes) (half : Bool) : Bool :=
  decide (0 < beValue vch) && decide (beValue vch ≤ if half then maxModHalfOrder else maxModOrder)

def isCompressedOrUncompressedPubKey (vchPubKey : Bytes) : Bool :=
  if vchPubKey.length < 33 then false
  else if vchPubKey.getD 0 0 = 0x04 then vchPubKey.length == 65
  else if vchPubKey.getD 0 0 = 0x02 ∨ vchPubKey.getD 0 0 = 0x03 then vchPubKey.length == 33
  else false

/-- The checks on `R` and on `S`: a positive number without excessive padding. -/
def isDERInteger (vchSig : Bytes) (start nLen : Nat) : Bool :=
  let ch := fun i => vchSig.getD (start + i) 0
  vchSig.getD (start - 2) 0 == 0x02 && nLen != 0 && ch 0 &&& 0x80 == 0 &&
    !(decide (1 < nLen) && ch 0 == 0 && ch 1 &&& 0x80 == 0)

def isDERSignature (vchSig : Bytes) (haveHashType : Bool) : Bool :=
  let nLenR := (vchSig.getD 3 0).toNat
  let nLenS := (vchSig.getD (5 + nLenR) 0).toNat
  decide (9 ≤ vchSig.length) && decide (vchSig.length ≤ 73) && vchSig.getD 0 0 == 0x30 &&
    (vchSig.getD 1 0).toNat == vchSig.length - (if haveHashType then 3 else 2) &&
    decide (5 + nLenR < vchSig.length) &&
    nLenR + nLenS + (if haveHashType then 7 else 6) == vchSig.length &&
    isDERInteger vchSig 4 nLenR && isDERInteger vchSig (6 + nLenR) nLenS

def isLowDERSignature (vchSig : Bytes) : Bool :=
  let nLenR := (vchSig.getD 3 0).toNat
  let nLenS := (vchSig.getD (5 + nLenR) 0).toNat
  isDERSignature vchSig true && checkSignatureElement ((vchSig.drop (6 + nLenR)).take nLenS) true

def isDefinedHashtypeSignature (vchSig : Bytes) : Bool :=
  match vchSig.getLast? with
  | none => false
  | some ch =>
    let nHashType := ch &&& ~~~0x80
    decide (1 ≤ nHashType) && decide (nHashType ≤ 3)

def checkSignatureEncoding (nFork : Fork) (vchSig : Bytes) (flags : Flags) : Bool :=
  if nFork < .fork005 then true
  else if flags.has Flags.allowEmptySig && vchSig.isEmpty then true
  else isLowDERSignature vchSig && (flags.has Flags.fixHashType || isDefinedHashtypeSignature vchSig)

def checkPubKeyEncoding (vchPubKey : Bytes) : Bool := isCompressedOrUncompressedPubKey vchPubKey

/-- `CheckSig`. The hash type is the last byte of the signature. The cache of valid signatures only
saves work: it holds what was verified before. -/
def checkSig (c : Crypto) (vchSig vchPubKey : Bytes) (scriptCode : CScript) (txTo : CTransaction)
    (nIn : UInt32) (nHashType : Int32) : Bool :=
  match vchSig.getLast? with
  | none => false
  | some ch =>
    let last : Int32 := Int32.ofNat ch.toNat
    if nHashType ≠ 0 ∧ nHashType ≠ last then false
    else c.verify vchPubKey (signatureHash c.hash scriptCode txTo nIn last) vchSig.dropLast

/-- The signature check of `OP_CHECKSIG` and `OP_CHECKMULTISIG`; nothing when `SCRIPT_VERIFY_STRICTENC`
fails the script. -/
def checkStackSig (c : Crypto) (nFork : Fork) (vchSig vchPubKey : Bytes) (scriptCode : CScript)
    (txTo : CTransaction) (nIn : UInt32) (flags : Flags) (nHashType : Int32) : Option Bool :=
  let fEncoded := checkSignatureEncoding nFork vchSig flags && checkPubKeyEncoding vchPubKey
  if flags.has Flags.strictEnc && !fEncoded then none
  else some (fEncoded && checkSig c vchSig vchPubKey scriptCode txTo nIn nHashType)

end Stealth

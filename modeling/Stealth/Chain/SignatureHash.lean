import Stealth.Script.Parse

/-!
Signature hashes. From `IMMALLEABLE_VERSION` on they cover the id of the transaction; the two early exits
return 1.
-/

namespace Stealth

open Encoding CScript

def sighashNone : Int32 := 2
def sighashSingle : Int32 := 3
def sighashAnyoneCanPay : Int32 := 0x80

def outputMode (nHashType : Int32) : Int32 := nHashType &&& 0x1f

namespace CTransaction

/-- `txTmp.vin[nIn].scriptSig = scriptCode`, after all scripts are blanked. -/
def signScripts (scriptCode : CScript) (nIn : Nat) (vin : List CTxIn) : List CTxIn :=
  vin.mapIdx fun i txin => { txin with scriptSig := if i = nIn then scriptCode else [] }

def freeSequences (nIn : Nat) (vin : List CTxIn) : List CTxIn :=
  vin.mapIdx fun i txin => if i = nIn then txin else { txin with nSequence := 0 }

/-- `vout.resize(nOut + 1)` with the outputs before `nOut` set to null. -/
def singleOutput (nOut : Nat) (vout : List CTxOut) : List CTxOut :=
  (vout.take (nOut + 1)).mapIdx fun i txout => if i < nOut then CTxOut.null else txout

def signedCopy (scriptCode : CScript) (nIn : Nat) (nHashType : Int32) (txTo : CTransaction) :
    CTransaction :=
  let vin := signScripts (findAndDelete [opCodeSeparator] scriptCode) nIn txTo.vin
  let txTmp : CTransaction :=
    if outputMode nHashType = sighashNone then
      { txTo with vin := freeSequences nIn vin, vout := [] }
    else if outputMode nHashType = sighashSingle then
      { txTo with vin := freeSequences nIn vin, vout := singleOutput nIn txTo.vout }
    else { txTo with vin := vin }
  if nHashType &&& sighashAnyoneCanPay ≠ 0 then
    { txTmp with vin := (txTmp.vin[nIn]?).toList }
  else txTmp

def signatureStream (hash : Bytes → Uint256) (scriptCode : CScript) (txTo : CTransaction)
    (nIn : Nat) (nHashType : Int32) : Bytes :=
  let tail := (txTo.signedCopy scriptCode nIn nHashType).serialize ++ serializeInt32 nHashType
  if immalleableVersion ≤ txTo.nVersion then serializeUint256 (txTo.getHash hash) ++ tail else tail

/-- The input index, or for `SIGHASH_SINGLE` the output index, is out of range. -/
def OutOfRange (txTo : CTransaction) (nIn : Nat) (nHashType : Int32) : Prop :=
  txTo.vin.length ≤ nIn ∨ outputMode nHashType = sighashSingle ∧ txTo.vout.length ≤ nIn

instance (txTo : CTransaction) (nIn : Nat) (nHashType : Int32) :
    Decidable (txTo.OutOfRange nIn nHashType) :=
  inferInstanceAs (Decidable (_ ∨ _))

end CTransaction

def signatureHash (hash : Bytes → Uint256) (scriptCode : CScript) (txTo : CTransaction) (nIn : UInt32)
    (nHashType : Int32) : Uint256 :=
  if txTo.vin.length ≤ nIn.toNat then 1
  else if outputMode nHashType = sighashSingle ∧ txTo.vout.length ≤ nIn.toNat then 1
  else hash (txTo.signatureStream hash scriptCode nIn.toNat nHashType)

variable {nIn : UInt32} {nHashType : Int32} {txTo : CTransaction}

theorem signatureHash_of_outOfRange (hash : Bytes → Uint256) (scriptCode : CScript)
    (h : txTo.OutOfRange nIn.toNat nHashType) :
    signatureHash hash scriptCode txTo nIn nHashType = 1 := by
  rw [signatureHash]
  split
  · rfl
  · next hvin => rw [if_pos (h.resolve_left hvin)]

theorem signatureHash_of_inRange (hash : Bytes → Uint256) (scriptCode : CScript)
    (h : ¬ txTo.OutOfRange nIn.toNat nHashType) :
    signatureHash hash scriptCode txTo nIn nHashType =
      hash (txTo.signatureStream hash scriptCode nIn.toNat nHashType) := by
  rw [signatureHash, if_neg (fun hvin => h (.inl hvin)), if_neg (fun hvout => h (.inr hvout))]

/-- From `IMMALLEABLE_VERSION` on the stream starts with the id of the transaction. -/
theorem getHash_eq_of_signatureStream_eq {hash : Bytes → Uint256} {tx₁ tx₂ : CTransaction}
    {code₁ code₂ : CScript} {nIn₁ nIn₂ : Nat} {type₁ type₂ : Int32}
    (hv₁ : CTransaction.immalleableVersion ≤ tx₁.nVersion)
    (hv₂ : CTransaction.immalleableVersion ≤ tx₂.nVersion)
    (heq : tx₁.signatureStream hash code₁ nIn₁ type₁ = tx₂.signatureStream hash code₂ nIn₂ type₂) :
    tx₁.getHash hash = tx₂.getHash hash := by
  simp only [CTransaction.signatureStream, if_pos hv₁, if_pos hv₂] at heq
  exact (splitsOn_serializeUint256 _ _ _ _ trivial trivial heq).1

section CollisionFree

variable {hash : Bytes → Uint256} {S : Set Bytes} (hinj : Set.InjOn hash S)

include hinj

/-- Ids are equal for transactions that agree up to what `GetHash` leaves out, and for no others. -/
theorem getHash_eq_iff {tx₁ tx₂ : CTransaction} (hs₁ : tx₁.Sized) (hs₂ : tx₂.Sized)
    (h₁ : tx₁.idForm.serialize ∈ S) (h₂ : tx₂.idForm.serialize ∈ S) :
    tx₁.getHash hash = tx₂.getHash hash ↔ tx₁.idForm.wire = tx₂.idForm.wire := by
  rw [← CTransaction.serialize_eq_iff hs₁.idForm hs₂.idForm]
  exact hinj.eq_iff h₁ h₂

/-- Equal signature hashes mean equal ids, unless both calls leave early for transactions that
differ. -/
theorem getHash_eq_of_signatureHash_eq_iff (hone : ∀ s ∈ S, hash s ≠ 1) {tx₁ tx₂ : CTransaction}
    (hv₁ : CTransaction.immalleableVersion ≤ tx₁.nVersion)
    (hv₂ : CTransaction.immalleableVersion ≤ tx₂.nVersion) (hs₁ : tx₁.Sized) (hs₂ : tx₂.Sized)
    (code₁ code₂ : CScript) (nIn₁ nIn₂ : UInt32) (type₁ type₂ : Int32)
    (hid₁ : tx₁.idForm.serialize ∈ S) (hid₂ : tx₂.idForm.serialize ∈ S)
    (hst₁ : tx₁.signatureStream hash code₁ nIn₁.toNat type₁ ∈ S)
    (hst₂ : tx₂.signatureStream hash code₂ nIn₂.toNat type₂ ∈ S) :
    (signatureHash hash code₁ tx₁ nIn₁ type₁ = signatureHash hash code₂ tx₂ nIn₂ type₂ →
        tx₁.getHash hash = tx₂.getHash hash) ↔
      (tx₁.OutOfRange nIn₁.toNat type₁ → tx₂.OutOfRange nIn₂.toNat type₂ →
        tx₁.idForm.wire = tx₂.idForm.wire) := by
  rw [getHash_eq_iff hinj hs₁ hs₂ hid₁ hid₂]
  by_cases h₁ : tx₁.OutOfRange nIn₁.toNat type₁
  · by_cases h₂ : tx₂.OutOfRange nIn₂.toNat type₂
    · rw [signatureHash_of_outOfRange hash code₁ h₁, signatureHash_of_outOfRange hash code₂ h₂]
      exact ⟨fun h _ _ => h rfl, fun h _ => h h₁ h₂⟩
    · refine ⟨fun _ _ hout => absurd hout h₂, fun _ heq => ?_⟩
      rw [signatureHash_of_outOfRange hash code₁ h₁, signatureHash_of_inRange hash code₂ h₂] at heq
      exact absurd heq.symm (hone _ hst₂)
  · refine ⟨fun _ hout => absurd hout h₁, fun _ heq => ?_⟩
    rw [signatureHash_of_inRange hash code₁ h₁] at heq
    by_cases h₂ : tx₂.OutOfRange nIn₂.toNat type₂
    · rw [signatureHash_of_outOfRange hash code₂ h₂] at heq
      exact absurd heq (hone _ hst₁)
    · rw [signatureHash_of_inRange hash code₂ h₂] at heq
      rw [← getHash_eq_iff hinj hs₁ hs₂ hid₁ hid₂]
      exact getHash_eq_of_signatureStream_eq hv₁ hv₂ (hinj hst₁ hst₂ heq)

end CollisionFree

def rollingHash (s : Bytes) : Uint256 :=
  s.foldl (fun h ch => h * 257 + BitVec.ofNat 256 (ch.toNat + 1)) 7

def twoInOneOut (nValue : Int64) : CTransaction where
  nVersion := 4
  nTime := 0
  vin := [⟨⟨5, 0⟩, [], 0xffffffff⟩, ⟨⟨6, 0⟩, [], 0xffffffff⟩]
  vout := [⟨nValue, [0x51]⟩]
  nLockTime := 0

theorem sized_twoInOneOut (nValue : Int64) : (twoInOneOut nValue).Sized := by
  constructor <;> simp [twoInOneOut]

/-- What is hashed when input `nIn` of two such transactions is signed. -/
def hashedStrings (nIn : Nat) (nHashType : Int32) : List Bytes :=
  [(twoInOneOut 1).idForm.serialize, (twoInOneOut 2).idForm.serialize,
    (twoInOneOut 1).signatureStream rollingHash [0x51] nIn nHashType,
    (twoInOneOut 2).signatureStream rollingHash [0x51] nIn nHashType]

theorem getHash_eq_of_signatureHash_eq_iff_single :
    (signatureHash rollingHash [0x51] (twoInOneOut 1) 0 sighashSingle =
        signatureHash rollingHash [0x51] (twoInOneOut 2) 0 sighashSingle →
      (twoInOneOut 1).getHash rollingHash = (twoInOneOut 2).getHash rollingHash) ↔
    ((twoInOneOut 1).OutOfRange 0 sighashSingle → (twoInOneOut 2).OutOfRange 0 sighashSingle →
      (twoInOneOut 1).idForm.wire = (twoInOneOut 2).idForm.wire) :=
  getHash_eq_of_signatureHash_eq_iff (S := {s | s ∈ hashedStrings 0 sighashSingle})
    (show ∀ a ∈ hashedStrings 0 sighashSingle, ∀ b ∈ hashedStrings 0 sighashSingle,
      rollingHash a = rollingHash b → a = b by decide +kernel)
    (show ∀ a ∈ hashedStrings 0 sighashSingle, rollingHash a ≠ 1 by decide +kernel)
    (by decide) (by decide) (sized_twoInOneOut 1) (sized_twoInOneOut 2) [0x51] [0x51] 0 0
    sighashSingle sighashSingle (by simp [hashedStrings]) (by simp [hashedStrings])
    (by simp [hashedStrings]) (by simp [hashedStrings])

/-- A `SIGHASH_SINGLE` signature of the second input, which has no output at its index, signs 1 and
so signs every such transaction, though ids and streams never collide. -/
theorem signatureHash_single_without_output : (∀ a ∈ hashedStrings 1 sighashSingle, rollingHash a ≠ 1 ∧
      ∀ b ∈ hashedStrings 1 sighashSingle, rollingHash a = rollingHash b → a = b) ∧
    CTransaction.immalleableVersion ≤ (twoInOneOut 1).nVersion ∧
    CTransaction.immalleableVersion ≤ (twoInOneOut 2).nVersion ∧
    signatureHash rollingHash [0x51] (twoInOneOut 1) 1 sighashSingle =
      signatureHash rollingHash [0x51] (twoInOneOut 2) 1 sighashSingle ∧
    (twoInOneOut 1).getHash rollingHash ≠ (twoInOneOut 2).getHash rollingHash := by
  decide +kernel

end Stealth

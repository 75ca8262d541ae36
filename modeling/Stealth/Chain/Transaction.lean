import Stealth.ChainParams
import Stealth.Lib.Encoding

/-!
Transactions, their serialization and their ids. From version 2 on an id leaves out the input scripts, so
that it can be signed.
-/

namespace Stealth

open Encoding

abbrev CScript := Bytes

@[ext] structure COutPoint where
  hash : Uint256
  n : UInt32
  deriving DecidableEq, Repr

@[ext] structure CTxIn where
  prevout : COutPoint
  scriptSig : CScript
  nSequence : UInt32
  deriving DecidableEq, Repr

@[ext] structure CTxOut where
  nValue : Int64
  scriptPubKey : CScript
  deriving DecidableEq, Repr

@[ext] structure CTransaction where
  nVersion : Int32
  nTime : UInt32
  vin : List CTxIn
  vout : List CTxOut
  nLockTime : UInt32
  deriving DecidableEq, Repr

def COutPoint.isNull (o : COutPoint) : Bool := o.hash == 0 && o.n == 0xffffffff

def CTxOut.null : CTxOut := ⟨-1, []⟩

def CTxOut.isEmpty (o : CTxOut) : Bool := o.nValue == 0 && o.scriptPubKey.isEmpty

namespace CTransaction

def notxtimeVersion : Int32 := 2
def immalleableVersion : Int32 := 3
def feelessVersion : Int32 := 4

def hasTimestamp (tx : CTransaction) : Bool := tx.nVersion < notxtimeVersion

def isCoinBase (tx : CTransaction) : Bool :=
  match tx.vin with
  | [txin] => txin.prevout.isNull && decide (1 ≤ tx.vout.length)
  | _ => false

def isCoinStake (tx : CTransaction) : Bool :=
  match tx.vin, tx.vout with
  | txin :: _, o :: _ :: _ => !txin.prevout.isNull && o.isEmpty
  | _, _ => false

end CTransaction

def writeCompactSize (nSize : Nat) : Bytes :=
  if nSize < 253 then [UInt8.ofNat nSize]
  else if nSize ≤ 0xffff then 253 :: leBytes 2 nSize
  else if nSize ≤ 0xffffffff then 254 :: leBytes 4 nSize
  else 255 :: leBytes 8 nSize

def serializeVector {α : Type} (ser : α → Bytes) (v : List α) : Bytes :=
  writeCompactSize v.length ++ v.flatMap ser

def serializeUint256 (h : Uint256) : Bytes := leBytes 32 h.toNat
def serializeUInt32 (n : UInt32) : Bytes := leBytes 4 n.toNat
def serializeInt32 (n : Int32) : Bytes := leBytes 4 n.toUInt32.toNat
def serializeInt64 (n : Int64) : Bytes := leBytes 8 n.toUInt64.toNat
def serializeScript (s : CScript) : Bytes := serializeVector (fun ch => [ch]) s

def COutPoint.serialize (o : COutPoint) : Bytes := serializeUint256 o.hash ++ serializeUInt32 o.n

def CTxIn.serialize (txin : CTxIn) : Bytes :=
  txin.prevout.serialize ++ (serializeScript txin.scriptSig ++ serializeUInt32 txin.nSequence)

def CTxOut.serialize (txout : CTxOut) : Bytes :=
  serializeInt64 txout.nValue ++ serializeScript txout.scriptPubKey

namespace CTransaction

def serializeTime (tx : CTransaction) : Bytes :=
  if tx.hasTimestamp then serializeUInt32 tx.nTime else []

def serialize (tx : CTransaction) : Bytes :=
  serializeInt32 tx.nVersion ++ (tx.serializeTime ++ (serializeVector CTxIn.serialize tx.vin ++
    (serializeVector CTxOut.serialize tx.vout ++ serializeUInt32 tx.nLockTime)))

def blankSigs (tx : CTransaction) : CTransaction :=
  { tx with vin := tx.vin.map fun txin => { txin with scriptSig := [] } }

def idForm (tx : CTransaction) : CTransaction :=
  if tx.hasTimestamp || tx.isCoinBase then tx else tx.blankSigs

/-- `GetHash`, with the double SHA-256 of a byte string as a parameter. -/
def getHash (hash : Bytes → Uint256) (tx : CTransaction) : Uint256 := hash tx.idForm.serialize

end CTransaction

/-- The first byte of a length and the number of bytes that follow it. -/
def sizeTag (nSize : Nat) : UInt8 :=
  if nSize < 253 then UInt8.ofNat nSize
  else if nSize ≤ 0xffff then 253
  else if nSize ≤ 0xffffffff then 254
  else 255

def sizeWidth (tag : UInt8) : Nat :=
  if tag < 253 then 0 else if tag = 253 then 2 else if tag = 254 then 4 else 8

theorem sizeTag_small {n : Nat} (h : n < 253) : sizeTag n < 253 ∧ (sizeTag n).toNat = n := by
  have htag : (sizeTag n).toNat = n := by
    rw [sizeTag, if_pos h, UInt8.toNat_ofNat']
    omega
  refine ⟨?_, htag⟩
  rw [UInt8.lt_iff_toNat_lt, htag]
  exact h

theorem writeCompactSize_eq (n : Nat) :
    writeCompactSize n = sizeTag n :: leBytes (sizeWidth (sizeTag n)) n := by
  by_cases h : n < 253
  · rw [sizeWidth, if_pos (sizeTag_small h).1, writeCompactSize, if_pos h, sizeTag, if_pos h, leBytes]
  · simp only [writeCompactSize, sizeTag, if_neg h]
    split_ifs <;> rfl

theorem lt_of_sizeTag {n : Nat} (hn : n < 2 ^ 64) (h : ¬ sizeTag n < 253) :
    n < 256 ^ sizeWidth (sizeTag n) := by
  have hbig : ¬ n < 253 := fun hsmall => h (sizeTag_small hsmall).1
  simp only [sizeTag, if_neg hbig]
  split_ifs with h₁ h₂
  · exact Nat.lt_of_le_of_lt h₁ (by decide)
  · exact Nat.lt_of_le_of_lt h₂ (by decide)
  · exact Nat.lt_of_lt_of_le hn (by decide)

theorem splitsOn_writeCompactSize : SplitsOn (fun n => n < 2 ^ 64) writeCompactSize := by
  intro a b s t ha hb heq
  rw [writeCompactSize_eq, writeCompactSize_eq, List.cons_append, List.cons_append,
    List.cons.injEq] at heq
  obtain ⟨htag, hrest⟩ := heq
  rw [htag] at hrest
  obtain ⟨hpay, hst⟩ := List.append_inj hrest (by rw [leBytes_length, leBytes_length])
  refine ⟨?_, hst⟩
  by_cases hsmall : sizeTag b < 253
  · have hsize : ∀ n, sizeTag n < 253 → n < 253 := by
      intro n hn
      by_contra hbig
      simp only [sizeTag, if_neg hbig] at hn
      split_ifs at hn <;> revert hn <;> decide
    rw [← (sizeTag_small (hsize a (htag ▸ hsmall))).2, htag, (sizeTag_small (hsize b hsmall)).2]
  · have hlt := lt_of_sizeTag ha (htag ▸ hsmall)
    rw [htag] at hlt
    exact leBytes_inj _ a b hlt (lt_of_sizeTag hb hsmall) hpay

theorem splitsOn_serializeVector {α : Type} {P : α → Prop} {ser : α → Bytes} (h : SplitsOn P ser) :
    SplitsOn (fun v : List α => v.length < 2 ^ 64 ∧ ∀ a ∈ v, P a) (serializeVector ser) :=
  splitsOn_writeCompactSize.counted h

theorem splitsOn_word {α : Type} {w : Nat} {code : α → Nat} (hlt : ∀ a, code a < 256 ^ w)
    (hinj : ∀ a b, code a = code b → a = b) : SplitsOn (fun _ => True) (fun a => leBytes w (code a)) := by
  intro a b s t _ _ heq
  obtain ⟨h, hst⟩ := splitsOn_leBytes w _ _ _ _ (hlt a) (hlt b) heq
  exact ⟨hinj a b h, hst⟩

theorem splitsOn_serializeUint256 : SplitsOn (fun _ => True) serializeUint256 :=
  splitsOn_word (fun h => h.isLt) (fun _ _ => BitVec.eq_of_toNat_eq)

theorem splitsOn_serializeUInt32 : SplitsOn (fun _ => True) serializeUInt32 :=
  splitsOn_word (fun n => n.toNat_lt) (fun _ _ => UInt32.toNat_inj.mp)

theorem splitsOn_serializeInt32 : SplitsOn (fun _ => True) serializeInt32 :=
  splitsOn_word (fun n => n.toUInt32.toNat_lt)
    (fun ⟨_⟩ ⟨_⟩ h => congrArg Int32.ofUInt32 (UInt32.toNat_inj.mp h))

theorem splitsOn_serializeInt64 : SplitsOn (fun _ => True) serializeInt64 :=
  splitsOn_word (fun n => n.toUInt64.toNat_lt)
    (fun ⟨_⟩ ⟨_⟩ h => congrArg Int64.ofUInt64 (UInt64.toNat_inj.mp h))

theorem splitsOn_serializeScript : SplitsOn (fun s : CScript => s.length < 2 ^ 64) serializeScript := by
  have hbyte : SplitsOn (fun _ : UInt8 => True) (fun ch => [ch]) :=
    splitsOn_of_length (fun _ _ => rfl) (fun a b _ _ h => List.singleton_inj.mp h)
  intro a b s t ha hb heq
  exact splitsOn_serializeVector hbyte a b s t ⟨ha, fun _ _ => trivial⟩ ⟨hb, fun _ _ => trivial⟩ heq

theorem splitsOn_outPoint : SplitsOn (fun _ => True) COutPoint.serialize := by
  intro a b s t _ _ heq
  simp only [COutPoint.serialize, List.append_assoc] at heq
  obtain ⟨hhash, heq⟩ := splitsOn_serializeUint256 _ _ _ _ trivial trivial heq
  obtain ⟨hn, hst⟩ := splitsOn_serializeUInt32 _ _ _ _ trivial trivial heq
  exact ⟨COutPoint.ext hhash hn, hst⟩

theorem splitsOn_txIn : SplitsOn (fun txin : CTxIn => txin.scriptSig.length < 2 ^ 64) CTxIn.serialize := by
  intro a b s t ha hb heq
  simp only [CTxIn.serialize, List.append_assoc] at heq
  obtain ⟨hprevout, heq⟩ := splitsOn_outPoint _ _ _ _ trivial trivial heq
  obtain ⟨hscript, heq⟩ := splitsOn_serializeScript _ _ _ _ ha hb heq
  obtain ⟨hsequence, hst⟩ := splitsOn_serializeUInt32 _ _ _ _ trivial trivial heq
  exact ⟨CTxIn.ext hprevout hscript hsequence, hst⟩

theorem splitsOn_txOut :
    SplitsOn (fun txout : CTxOut => txout.scriptPubKey.length < 2 ^ 64) CTxOut.serialize := by
  intro a b s t ha hb heq
  simp only [CTxOut.serialize, List.append_assoc] at heq
  obtain ⟨hvalue, heq⟩ := splitsOn_serializeInt64 _ _ _ _ trivial trivial heq
  obtain ⟨hscript, hst⟩ := splitsOn_serializeScript _ _ _ _ ha hb heq
  exact ⟨CTxOut.ext hvalue hscript, hst⟩

namespace CTransaction

/-- Vectors have less than `2^64` items, as on every machine. -/
structure Sized (tx : CTransaction) : Prop where
  vin : tx.vin.length < 2 ^ 64
  scriptSig : ∀ txin ∈ tx.vin, txin.scriptSig.length < 2 ^ 64
  vout : tx.vout.length < 2 ^ 64
  scriptPubKey : ∀ txout ∈ tx.vout, txout.scriptPubKey.length < 2 ^ 64

/-- The transaction as it is transmitted: without a timestamp, `_nTime` is local to a node. -/
def wire (tx : CTransaction) : CTransaction :=
  if tx.hasTimestamp then tx else { tx with nTime := 0 }

theorem splits_serializeTime {a b : CTransaction} {s t : Bytes} (hversion : a.nVersion = b.nVersion)
    (heq : a.serializeTime ++ s = b.serializeTime ++ t) :
    (a.hasTimestamp = true → a.nTime = b.nTime) ∧ s = t := by
  have hstamp : a.hasTimestamp = b.hasTimestamp := by rw [hasTimestamp, hasTimestamp, hversion]
  rw [serializeTime, serializeTime, hstamp] at heq
  rw [hstamp]
  cases hb : b.hasTimestamp with
  | true =>
    rw [hb] at heq
    obtain ⟨htime, hst⟩ := splitsOn_serializeUInt32 _ _ _ _ trivial trivial heq
    exact ⟨fun _ => htime, hst⟩
  | false =>
    rw [hb] at heq
    exact ⟨nofun, heq⟩

theorem wire_eq_of_serialize_eq {a b : CTransaction} (ha : a.Sized) (hb : b.Sized)
    (heq : a.serialize = b.serialize) : a.wire = b.wire := by
  obtain ⟨hversion, heq⟩ := splitsOn_serializeInt32 _ _ _ _ trivial trivial heq
  obtain ⟨htime, heq⟩ := splits_serializeTime hversion heq
  obtain ⟨hvin, heq⟩ := splitsOn_serializeVector splitsOn_txIn _ _ _ _ ⟨ha.vin, ha.scriptSig⟩
    ⟨hb.vin, hb.scriptSig⟩ heq
  obtain ⟨hvout, heq⟩ := splitsOn_serializeVector splitsOn_txOut _ _ _ _ ⟨ha.vout, ha.scriptPubKey⟩
    ⟨hb.vout, hb.scriptPubKey⟩ heq
  have hlock := splitsOn_serializeUInt32.eq trivial trivial heq
  have hstamp : a.hasTimestamp = b.hasTimestamp := by rw [hasTimestamp, hasTimestamp, hversion]
  rw [wire, wire, ← hstamp]
  split
  · next h => exact CTransaction.ext hversion (htime h) hvin hvout hlock
  · exact CTransaction.ext hversion rfl hvin hvout hlock

theorem serialize_wire (tx : CTransaction) : tx.wire.serialize = tx.serialize := by
  cases h : tx.hasTimestamp with
  | true => rw [wire, h, if_pos rfl]
  | false =>
    have hwire : tx.wire = { tx with nTime := 0 } := by rw [wire, h, if_neg nofun]
    have htime : tx.wire.serializeTime = [] := by
      rw [hwire, serializeTime, if_neg]
      rw [hasTimestamp] at h ⊢
      simp [h]
    rw [serialize, serialize, htime, serializeTime, h, if_neg nofun, hwire]

theorem serialize_eq_iff {a b : CTransaction} (ha : a.Sized) (hb : b.Sized) :
    a.serialize = b.serialize ↔ a.wire = b.wire := by
  refine ⟨wire_eq_of_serialize_eq ha hb, fun h => ?_⟩
  rw [← serialize_wire a, h, serialize_wire]

theorem Sized.idForm {tx : CTransaction} (h : tx.Sized) : tx.idForm.Sized := by
  rw [CTransaction.idForm]
  split
  · exact h
  · exact ⟨by simpa [blankSigs] using h.vin, by simp [blankSigs], h.vout, h.scriptPubKey⟩

end CTransaction

end Stealth

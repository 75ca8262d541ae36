import Stealth.Chain.TxDB
import Stealth.Chain.Unserialize

/-!
The record of a block in the database, read into an object that has been used before. Some fields are not
reset when the record has none.
-/

namespace Stealth

open Encoding

theorem lt_two_pow_width {n : Nat} (hn : n ≠ 0) : n < 256 ^ (n.log2 / 8 + 1) := by
  have hpow : (256 : Nat) ^ (n.log2 / 8 + 1) = 2 ^ (8 * (n.log2 / 8 + 1)) := Nat.pow_mul 2 8 _ |>.symm
  rw [hpow, ← Nat.log2_lt hn]
  omega

theorem two_mul_sign {w : Nat} (hw : 0 < w) : 2 * 2 ^ (8 * w - 1) = 256 ^ w := by
  rw [← Nat.pow_add_one', Nat.sub_add_cancel (by omega), Nat.pow_mul]

theorem setVch_getVch (bn : Int) : setVch (getVch bn) = bn := by
  by_cases hzero : bn.natAbs = 0
  · rw [getVch, if_pos hzero, Int.natAbs_eq_zero.1 hzero]
    rfl
  have hlt := lt_two_pow_width hzero
  rw [getVch, if_neg hzero]
  generalize hw : bn.natAbs.log2 / 8 + 1 = w at hlt
  have hsign : 2 * 2 ^ (8 * w - 1) = 256 ^ w := two_mul_sign (by omega)
  split
  · next hfit =>
    have hvalue : (if bn < 0 then bn.natAbs + 2 ^ (8 * w - 1) else bn.natAbs) < 256 ^ w := by
      split <;> omega
    have hne : (leBytes w (if bn < 0 then bn.natAbs + 2 ^ (8 * w - 1) else bn.natAbs)).isEmpty = false := by
      rw [← hw]
      rfl
    rw [setVch, hne, leValue_leBytes hvalue, leBytes_length]
    simp only [Bool.false_eq_true, if_false]
    split_ifs <;> omega
  · next hfull =>
    -- the number takes all bits of its bytes: one more byte carries the sign alone
    have hne : (leBytes w bn.natAbs ++ [if bn < 0 then (0x80 : UInt8) else 0]).isEmpty = false := by simp
    have htop : 2 * 2 ^ (8 * (w + 1) - 1) = 256 ^ w * 256 := two_mul_sign w.succ_pos
    rw [setVch, hne, leValue_append, leValue_leBytes hlt, List.length_append, List.length_singleton, leBytes_length]
    simp only [Bool.false_eq_true, if_false]
    by_cases hneg : bn < 0
    · have hlast : leValue [if bn < 0 then (0x80 : UInt8) else 0] = 128 := by rw [if_pos hneg]; rfl
      rw [hlast, if_pos (by omega)]
      omega
    · have hlast : leValue [if bn < 0 then (0x80 : UInt8) else 0] = 0 := by rw [if_neg hneg]; rfl
      rw [hlast, if_neg (by omega)]
      omega

theorem natAbs_setVch {vch : Bytes} (h : vch ≠ []) : (setVch vch).natAbs < 2 ^ (8 * vch.length - 1) := by
  have hlt := leValue_lt vch
  have hsign : 2 * 2 ^ (8 * vch.length - 1) = 256 ^ vch.length := two_mul_sign (List.length_pos_iff.2 h)
  simp only [setVch, List.isEmpty_eq_false_iff.2 h, Bool.false_eq_true, if_false]
  split <;> omega

theorem length_getVch_setVch (vch : Bytes) : (getVch (setVch vch)).length ≤ vch.length := by
  by_cases hempty : vch = []
  · rw [hempty]
    exact le_rfl
  have hlt := natAbs_setVch hempty
  rw [getVch]
  split
  · exact Nat.zero_le _
  · next hzero =>
    have hlog := (Nat.log2_lt hzero).2 hlt
    split
    · rw [leBytes_length]
      omega
    · next hfull =>
      have hmore : ¬ (setVch vch).natAbs.log2 < 8 * ((setVch vch).natAbs.log2 / 8 + 1) - 1 := by
        rwa [Nat.log2_lt hzero]
      rw [List.length_append, leBytes_length, List.length_singleton]
      omega

def readBigNum : Reader UInt8 Int := setVch <$> readString

def serializeBigNum (bn : Int) : Bytes := serializeScript (getVch bn)

theorem readsBack_bigNum : ReadsBack (fun bn => (getVch bn).length ≤ MAX_SIZE) serializeBigNum readBigNum := by
  intro bn s h
  rw [serializeBigNum, readBigNum, readsBack_string.map h, setVch_getVch]

theorem yields_bigNum : Yields (fun bn => (getVch bn).length ≤ MAX_SIZE) readBigNum := by
  exact yields_string.bind fun vch h => yields_pure ((length_getVch_setVch vch).trans h)

namespace Disk

/-- One registry operation of a block. -/
structure QPTxDetails where
  t : Int32
  id : UInt32
  sAlias : Bytes
  keys : List Bytes
  pcm : Int32
  value : Int64
  meta_key : Bytes
  meta_value : Bytes
  hash : Uint256
  txid : Uint256
  n : Int32
  deriving DecidableEq

/-- No vector of the details is longer than the reader accepts. -/
structure QPTxDetails.Sized (d : QPTxDetails) : Prop where
  sAlias : d.sAlias.length ≤ MAX_SIZE
  keys : d.keys.length ≤ MAX_SIZE ∧ ∀ key ∈ d.keys, key.length ≤ MAX_SIZE
  meta_key : d.meta_key.length ≤ MAX_SIZE
  meta_value : d.meta_value.length ≤ MAX_SIZE

def QPTxDetails.serialize (d : QPTxDetails) : Bytes :=
  serializeInt32 d.t ++ (serializeUInt32 d.id ++ (serializeScript d.sAlias ++
    (serializeVector serializeScript d.keys ++ (serializeInt32 d.pcm ++ (serializeInt64 d.value ++
      (serializeScript d.meta_key ++ (serializeScript d.meta_value ++ (serializeUint256 d.hash ++
        (serializeUint256 d.txid ++ serializeInt32 d.n)))))))))

def QPTxDetails.unserialize : Reader UInt8 QPTxDetails := do
  let t ← readInt32
  let id ← readUInt32
  let sAlias ← readString
  let keys ← readVector readString
  let pcm ← readInt32
  let value ← readInt64
  let meta_key ← readString
  let meta_value ← readString
  let hash ← readUint256
  let txid ← readUint256
  let n ← readInt32
  pure ⟨t, id, sAlias, keys, pcm, value, meta_key, meta_value, hash, txid, n⟩

theorem readsBack_details : ReadsBack QPTxDetails.Sized QPTxDetails.serialize QPTxDetails.unserialize := by
  intro d s h
  simp only [QPTxDetails.serialize, List.append_assoc]
  rw [QPTxDetails.unserialize, readsBack_int32.bind trivial, readsBack_uint32.bind trivial,
    readsBack_string.bind h.sAlias, (readsBack_vector readsBack_string).bind h.keys, readsBack_int32.bind trivial,
    readsBack_int64.bind trivial, readsBack_string.bind h.meta_key, readsBack_string.bind h.meta_value,
    readsBack_uint256.bind trivial, readsBack_uint256.bind trivial, readsBack_int32.bind trivial]
  rfl

theorem yields_details : Yields QPTxDetails.Sized QPTxDetails.unserialize := by
  refine yields_bind fun _ => yields_bind fun _ => yields_string.bind fun _ halias => ?_
  refine (yields_vector yields_string).bind fun _ hkeys => yields_bind fun _ => ?_
  refine yields_bind fun _ => yields_string.bind fun _ hkey => yields_string.bind fun _ hvalue => ?_
  refine yields_bind fun _ => yields_bind fun _ => yields_bind fun _ => ?_
  exact yields_pure ⟨halias, hkeys, hkey, hvalue⟩

structure CDiskBlockIndex where
  hashNext : Uint256
  nFile : UInt32
  nBlockPos : UInt32
  nHeight : Int32
  nMint : Int64
  nMoneySupply : Int64
  nFlags : UInt32
  nStakeModifier : UInt64
  prevoutStake : COutPoint
  nStakeTime : UInt32
  hashProofOfStake : Uint256
  nTxVolume : UInt32
  nXSTVolume : Int64
  nPicoPower : UInt64
  nBlockSize : UInt32
  nVersion : Int32
  hashPrev : Uint256
  hashMerkleRoot : Uint256
  nTime : UInt32
  nBits : UInt32
  nNonce : UInt32
  nStakerID : Int32
  blockHash : Uint256
  vDeets : List QPTxDetails
  bnChainTrust : Int
  nStakeModifierChecksum : UInt32
  deriving DecidableEq

open Stealth.CDiskBlockIndex (BLOCK_PROOF_OF_STAKE BLOCK_QPOS BLOCK_EXTENDED_SER)

def isProofOfStake (nFlags : UInt32) : Bool := nFlags &&& BLOCK_PROOF_OF_STAKE != 0
def isQuantumProofOfStake (nFlags : UInt32) : Bool := nFlags &&& BLOCK_QPOS != 0
def isChainTrustSerialized (nFlags : UInt32) : Bool := nFlags &&& BLOCK_EXTENDED_SER != 0

/-- The purchase details are part of the record from `XST_FORKPURCHASE` on. -/
def isDeetsSerialized (fTestNet : Bool) (nHeight : Int32) : Bool := decide (Fork.purchase ≤ getFork fTestNet nHeight.toInt)

def nullOutPoint : COutPoint := ⟨0, 0xffffffff⟩

abbrev StakeData := COutPoint × UInt32 × Uint256

def serializeStake (d : StakeData) : Bytes := d.1.serialize ++ (serializeUInt32 d.2.1 ++ serializeUint256 d.2.2)

def readStake : Reader UInt8 StakeData := do
  let hash ← readUint256
  let n ← readUInt32
  let nStakeTime ← readUInt32
  let hashProofOfStake ← readUint256
  pure (⟨hash, n⟩, nStakeTime, hashProofOfStake)

theorem readsBack_stake : ReadsBack (fun _ => True) serializeStake readStake := by
  intro d s _
  simp only [serializeStake, COutPoint.serialize, List.append_assoc]
  rw [readStake, readsBack_uint256.bind trivial, readsBack_uint32.bind trivial, readsBack_uint32.bind trivial,
    readsBack_uint256.bind trivial]
  rfl

abbrev TrustData := Int × UInt32

def serializeTrust (d : TrustData) : Bytes := serializeBigNum d.1 ++ serializeUInt32 d.2

def readTrust : Reader UInt8 TrustData := do
  let bnChainTrust ← readBigNum
  let nStakeModifierChecksum ← readUInt32
  pure (bnChainTrust, nStakeModifierChecksum)

theorem readsBack_trust :
    ReadsBack (fun d : TrustData => (getVch d.1).length ≤ MAX_SIZE) serializeTrust readTrust := by
  intro d s h
  rw [serializeTrust, List.append_assoc, readTrust, readsBack_bigNum.bind h, readsBack_uint32.bind trivial]
  rfl

theorem yields_trust : Yields (fun d : TrustData => (getVch d.1).length ≤ MAX_SIZE) readTrust :=
  yields_bigNum.bind fun _ h => yields_bind fun _ => yields_pure h

namespace CDiskBlockIndex

def serialize (fTestNet : Bool) (nSerVersion : Int32) (r : CDiskBlockIndex) : Bytes :=
  serializeInt32 nSerVersion ++ (serializeUint256 r.hashNext ++ (serializeUInt32 r.nFile ++
    (serializeUInt32 r.nBlockPos ++ (serializeInt32 r.nHeight ++ (serializeInt64 r.nMint ++
      (serializeInt64 r.nMoneySupply ++ (serializeUInt32 r.nFlags ++ (serializeUInt64 r.nStakeModifier ++
  ((if isProofOfStake r.nFlags then serializeStake (r.prevoutStake, r.nStakeTime, r.hashProofOfStake) else []) ++
    (serializeUInt32 r.nTxVolume ++ (serializeInt64 r.nXSTVolume ++ (serializeUInt64 r.nPicoPower ++
      (serializeUInt32 r.nBlockSize ++ (serializeInt32 r.nVersion ++ (serializeUint256 r.hashPrev ++
        (serializeUint256 r.hashMerkleRoot ++ (serializeUInt32 r.nTime ++ (serializeUInt32 r.nBits ++
          (serializeUInt32 r.nNonce ++
  ((if isQuantumProofOfStake r.nFlags then serializeInt32 r.nStakerID else []) ++
    (serializeUint256 r.blockHash ++
  ((if isDeetsSerialized fTestNet r.nHeight then serializeVector QPTxDetails.serialize r.vDeets else []) ++
  (if isChainTrustSerialized r.nFlags then serializeTrust (r.bnChainTrust, r.nStakeModifierChecksum)
    else [])))))))))))))))))))))))

/-- `Unserialize` into the object `obj`: the stake data and the chain trust are reset if the record has none. The
staker, the details and the checksum then stay those of the object. -/
def unserialize (fTestNet : Bool) (obj : CDiskBlockIndex) : Reader UInt8 CDiskBlockIndex := do
  let _nSerVersion ← readInt32
  let hashNext ← readUint256
  let nFile ← readUInt32
  let nBlockPos ← readUInt32
  let nHeight ← readInt32
  let nMint ← readInt64
  let nMoneySupply ← readInt64
  let nFlags ← readUInt32
  let nStakeModifier ← readUInt64
  let stake ← readIf (isProofOfStake nFlags) readStake (nullOutPoint, 0, 0)
  let nTxVolume ← readUInt32
  let nXSTVolume ← readInt64
  let nPicoPower ← readUInt64
  let nBlockSize ← readUInt32
  let nVersion ← readInt32
  let hashPrev ← readUint256
  let hashMerkleRoot ← readUint256
  let nTime ← readUInt32
  let nBits ← readUInt32
  let nNonce ← readUInt32
  let nStakerID ← readIf (isQuantumProofOfStake nFlags) readInt32 obj.nStakerID
  let blockHash ← readUint256
  let vDeets ← readIf (isDeetsSerialized fTestNet nHeight) (readVector QPTxDetails.unserialize) obj.vDeets
  let trust ← readIf (isChainTrustSerialized nFlags) readTrust (-1, obj.nStakeModifierChecksum)
  pure ⟨hashNext, nFile, nBlockPos, nHeight, nMint, nMoneySupply, nFlags, nStakeModifier, stake.1, stake.2.1, stake.2.2,
    nTxVolume, nXSTVolume, nPicoPower, nBlockSize, nVersion, hashPrev, hashMerkleRoot, nTime, nBits, nNonce, nStakerID,
    blockHash, vDeets, trust.1, trust.2⟩

/-- What the record of a block says: the fields it has, and the default values of all others. -/
def stored (fTestNet : Bool) (r : CDiskBlockIndex) : CDiskBlockIndex :=
  { r with
    prevoutStake := if isProofOfStake r.nFlags then r.prevoutStake else nullOutPoint
    nStakeTime := if isProofOfStake r.nFlags then r.nStakeTime else 0
    hashProofOfStake := if isProofOfStake r.nFlags then r.hashProofOfStake else 0
    nStakerID := if isQuantumProofOfStake r.nFlags then r.nStakerID else 0
    vDeets := if isDeetsSerialized fTestNet r.nHeight then r.vDeets else []
    bnChainTrust := if isChainTrustSerialized r.nFlags then r.bnChainTrust else -1
    nStakeModifierChecksum := if isChainTrustSerialized r.nFlags then r.nStakeModifierChecksum else 0 }

/-- The reader accepts the sizes of all vectors in the record. -/
structure Readable (fTestNet : Bool) (r : CDiskBlockIndex) : Prop where
  vDeets : isDeetsSerialized fTestNet r.nHeight = true → r.vDeets.length ≤ MAX_SIZE ∧ ∀ d ∈ r.vDeets, d.Sized
  bnChainTrust : isChainTrustSerialized r.nFlags = true → (getVch r.bnChainTrust).length ≤ MAX_SIZE

def overlay (fTestNet : Bool) (obj r : CDiskBlockIndex) : CDiskBlockIndex :=
  { r.stored fTestNet with
    nStakerID := if isQuantumProofOfStake r.nFlags then r.nStakerID else obj.nStakerID
    vDeets := if isDeetsSerialized fTestNet r.nHeight then r.vDeets else obj.vDeets
    nStakeModifierChecksum :=
      if isChainTrustSerialized r.nFlags then r.nStakeModifierChecksum else obj.nStakeModifierChecksum }

variable {fTestNet : Bool} {nSerVersion : Int32} {obj r : CDiskBlockIndex} {s : Bytes}

theorem unserialize_serialize (h : r.Readable fTestNet) :
    unserialize fTestNet obj (serialize fTestNet nSerVersion r ++ s) = some (overlay fTestNet obj r, s) := by
  simp only [serialize, List.append_assoc]
  rw [unserialize, readsBack_int32.bind trivial, readsBack_uint256.bind trivial, readsBack_uint32.bind trivial,
    readsBack_uint32.bind trivial, readsBack_int32.bind trivial, readsBack_int64.bind trivial,
    readsBack_int64.bind trivial, readsBack_uint32.bind trivial, readsBack_uint64.bind trivial,
    readsBack_stake.readIf_bind _ fun _ => trivial, readsBack_uint32.bind trivial, readsBack_int64.bind trivial,
    readsBack_uint64.bind trivial, readsBack_uint32.bind trivial, readsBack_int32.bind trivial,
    readsBack_uint256.bind trivial, readsBack_uint256.bind trivial, readsBack_uint32.bind trivial,
    readsBack_uint32.bind trivial, readsBack_uint32.bind trivial, readsBack_int32.readIf_bind _ fun _ => trivial,
    readsBack_uint256.bind trivial, (readsBack_vector readsBack_details).readIf_bind _ h.vDeets,
    readsBack_trust.readIf_bind _ h.bnChainTrust]
  refine congrArg (fun r' => some (r', s)) ?_
  simp only [overlay, stored, mk.injEq]
  split_ifs <;> simp

theorem yields_readable : Yields (Readable fTestNet) (unserialize fTestNet obj) := by
  iterate 22 refine yields_bind fun _ => ?_
  refine ((yields_vector yields_details).readIf _ _).bind fun _ hdeets => ?_
  exact (yields_trust.readIf _ _).bind fun _ htrust => yields_pure ⟨hdeets, htrust⟩

theorem readable_of_stored (h : (r.stored fTestNet).Readable fTestNet) : r.Readable fTestNet where
  vDeets hc := by
    have hr := h.vDeets hc
    rwa [stored, if_pos hc] at hr
  bnChainTrust hc := by
    have hr := h.bnChainTrust hc
    simp only [stored] at hr
    rwa [if_pos hc] at hr

theorem overlay_eq_stored_iff : overlay fTestNet obj r = r.stored fTestNet ↔
      (isQuantumProofOfStake r.nFlags = true ∨ obj.nStakerID = 0) ∧
      (isDeetsSerialized fTestNet r.nHeight = true ∨ obj.vDeets = []) ∧
      (isChainTrustSerialized r.nFlags = true ∨ obj.nStakeModifierChecksum = 0) := by
  simp only [overlay, stored, mk.injEq, true_and]
  refine and_congr ?_ (and_congr ?_ ?_) <;> split <;> simp_all

/-- A record that is read into a used object comes out as stored exactly if the fields that the record lacks and that
reading does not reset have their default values in the object. -/
theorem unserialize_eq_stored_iff (fTestNet : Bool) (nSerVersion : Int32) (obj r : CDiskBlockIndex) (s : Bytes) :
    unserialize fTestNet obj (serialize fTestNet nSerVersion r ++ s) = some (r.stored fTestNet, s) ↔
      r.Readable fTestNet ∧
      (isQuantumProofOfStake r.nFlags = true ∨ obj.nStakerID = 0) ∧
      (isDeetsSerialized fTestNet r.nHeight = true ∨ obj.vDeets = []) ∧
      (isChainTrustSerialized r.nFlags = true ∨ obj.nStakeModifierChecksum = 0) := by
  rw [← overlay_eq_stored_iff]
  constructor
  · intro h
    have hr := readable_of_stored (yields_readable _ _ _ h)
    rw [unserialize_serialize hr] at h
    exact ⟨hr, congrArg Prod.fst (Option.some.inj h)⟩
  · rintro ⟨hr, heq⟩
    rw [unserialize_serialize hr, heq]

def null : CDiskBlockIndex where
  hashNext := 0
  nFile := 0
  nBlockPos := 0
  nHeight := 0
  nMint := 0
  nMoneySupply := 0
  nFlags := BLOCK_EXTENDED_SER
  nStakeModifier := 0
  prevoutStake := nullOutPoint
  nStakeTime := 0
  hashProofOfStake := 0
  nTxVolume := 0
  nXSTVolume := 0
  nPicoPower := 0
  nBlockSize := 0
  nVersion := 0
  hashPrev := 0
  hashMerkleRoot := 0
  nTime := 0
  nBits := 0
  nNonce := 0
  nStakerID := 0
  blockHash := 0
  vDeets := []
  bnChainTrust := 0
  nStakeModifierChecksum := 0

/-- The record of a block without a staker, read into the object of a block of staker 7, has staker 7. -/
theorem unserialize_staleStaker :
    unserialize false { null with nStakerID := 7, nFlags := BLOCK_QPOS } (serialize false 1 null) =
        some ({ null with nStakerID := 7 }, []) ∧
      null.stored false = null := by
  decide +kernel

end CDiskBlockIndex

end Disk

end Stealth

import Stealth.Lib.Fallible
import Stealth.Script.Recognised
import Stealth.Script.Spendable
import Stealth.Qpos.Accepted

/-!
The scripts that the wallet builds for registry operations, with fixed fields, and how they are read back.
-/

namespace Stealth

open CScript Encoding

variable {β : Type} {vchPubKey sKey sValue : Bytes}

def vchByte (nValue i : Nat) : UInt8 :=
  let k := 8 * i
  UInt8.ofNat ((List.range 8).foldl (fun ch j => ch ||| (nValue &&& 1 <<< (k + j)) >>> k) 0)

def setNum (nValue nSize : Nat) : Bytes := ((List.range nSize).map (vchByte nValue)).reverse

theorem foldl_bits (n k m : Nat) :
    (List.range m).foldl (fun ch j => ch ||| (n &&& 1 <<< (k + j)) >>> k) 0 = n / 2 ^ k % 2 ^ m := by
  induction m with
  | zero => simp [Nat.mod_one]
  | succ m ih =>
    rw [List.range_succ, List.foldl_append, ih]
    refine Nat.eq_of_testBit_eq fun i => ?_
    simp only [List.foldl_cons, List.foldl_nil, Nat.testBit_or, Nat.testBit_shiftRight,
      Nat.testBit_and, Nat.one_shiftLeft, Nat.testBit_two_pow, Nat.testBit_mod_two_pow,
      Nat.testBit_div_two_pow]
    rw [Nat.add_comm k i]
    cases n.testBit (i + k) with
    | false => simp
    | true =>
      rw [Bool.eq_iff_iff]
      simp
      omega

theorem map_vchByte (nSize : Nat) : ∀ nValue, (List.range nSize).map (vchByte nValue) =
    leBytes nSize nValue := by
  induction nSize with
  | zero => exact fun _ => rfl
  | succ nSize ih =>
    intro nValue
    have hbyte : ∀ i, vchByte nValue (i + 1) = vchByte (nValue / 256) i := by
      intro i
      rw [vchByte, vchByte, foldl_bits, foldl_bits, Nat.div_div_eq_div_mul, Nat.mul_succ, Nat.add_comm,
        Nat.pow_add]
    have hzero : vchByte nValue 0 = UInt8.ofNat nValue := by
      rw [vchByte, foldl_bits, Nat.mul_zero, Nat.pow_zero, Nat.div_one]
      exact UInt8.ofNat_mod_size
    rw [List.range_succ_eq_map, List.map_cons, List.map_map, leBytes, ← ih, hzero]
    exact congrArg _ (List.map_congr_left fun i _ => hbyte i)

@[simp] theorem length_setNum (nValue nSize : Nat) : (setNum nValue nSize).length = nSize := by
  simp [setNum]

theorem beValue_setNum {nValue nSize : Nat} (h : nValue < 256 ^ nSize) :
    beValue (setNum nValue nSize) = nValue := by
  rw [beValue, setNum, List.reverse_reverse, map_vchByte, leValue_leBytes h]

theorem beValue_uint32 (n : UInt32) : beValue (setNum n.toNat 4) = n.toNat :=
  beValue_setNum n.toNat_lt

theorem int64Of_setNum (n : Int64) : int64Of (beValue (setNum n.toUInt64.toNat 8)) = n.toInt := by
  have hbits : n.toUInt64.toNat = n.toBitVec.toNat := rfl
  rw [beValue_setNum n.toUInt64.toNat_lt, int64Of, hbits]
  refine congrArg Int64.toInt (Int64.toBitVec_inj.1 ?_)
  exact BitVec.ofNat_toNat ..

def padTo (n : Nat) (s : Bytes) : Bytes := s ++ List.replicate (n - s.length) 0

theorem length_padTo {n : Nat} {s : Bytes} : (padTo n s).length = max n s.length := by
  rw [padTo, List.length_append, List.length_replicate]
  omega

theorem untilZero_padTo (n : Nat) {s : Bytes} (h : ∀ c ∈ s, c ≠ 0) : untilZero (padTo n s) = s := by
  have hs : ∀ c ∈ s, (c != 0) = true := fun c hc => bne_iff_ne.2 (h c hc)
  rw [untilZero, padTo, List.takeWhile_append_of_pos hs]
  cases n - s.length with
  | zero => exact List.append_nil s
  | succ k =>
    rw [List.replicate_succ, List.takeWhile_cons_of_neg (by decide)]
    exact List.append_nil s

/-- What the wallet reads: the registry and the chain of its node, its keys and its transactions, the
latter by the hexadecimal text of their ids. -/
structure WalletCtx where
  env : QPEnv
  crypto : Crypto
  pregistryMain : QPRegistry
  now : Int
  nBestHeight : Int
  pindexBest : CBlockIndex
  isLocked : Bool
  fWalletUnlockMintOnly : Bool
  mapWallet : Bytes → Option CTransaction
  getPubKey : Bytes → Option CPubKey

def require (fOK : Bool) (sError : String) : Except String Unit :=
  if fOK then .ok () else .error sError

def isEnabledStaker (r : QPRegistry) (nStakerID : Nat) : Bool :=
  (r.getStakerInternal nStakerID).any QPStaker.isEnabled

variable (w : WalletCtx) (txid : Bytes)

def checkQPoSEssentials (nID : UInt32) (vchPubKey : Bytes) : Except String Unit := do
  require (!w.isLocked) "CheckQPoSEssentials(): Wallet locked"
  require (!w.fWalletUnlockMintOnly) "CheckQPoSEssentials(): Wallet unlocked for minting only."
  require (txid.length == 64) "CheckQPoSEssentials(): TxID is wrong length"
  require (nID == 0 || w.pregistryMain.isQualifiedStaker nID.toNat)
    "CheckQPoSEssentials(): No such staker"
  require (vchPubKey.isEmpty || vchPubKey.length == 33)
    "CheckQPoSEssentials(): PubKey is not compressed"

def setStakerKey (nID : UInt32) (vchPubKey : Bytes) (opSetKey : UInt8) (nPcm : UInt32) :
    Except String CScript := do
  checkQPoSEssentials w txid nID vchPubKey
  let fIsSetDelegate := opSetKey == opSetDelegate
  require (!(fIsSetDelegate && decide (nPcm > 100000))) "SetStakerKey(): Payout too high"
  let vchSetKey := setNum nID.toNat 4 ++ vchPubKey ++
    if fIsSetDelegate then setNum nPcm.toNat 4 else []
  require (vchSetKey.length == if fIsSetDelegate then 37 + 4 else 37)
    "SetStakerKey(): TSNH scriptSetKey length mismatch"
  return push [] vchSetKey ++ [opSetKey]

def checkEnable (nID : UInt32) : Except String Unit := do
  require (!isEnabledStaker w.pregistryMain nID.toNat) "SetStakerState(): staker already enabled"
  require (w.pregistryMain.isQualifiedStaker nID.toNat) "SetStakerState(): staker is not qualified"
  require (w.pregistryMain.canEnableStaker w.env nID.toNat w.nBestHeight)
    "SetStakerState(): staker can't be enabled"

def setStakerState (nID : UInt32) (vchPubKey : Bytes) (fEnable : Bool) : Except String CScript := do
  checkQPoSEssentials w txid nID vchPubKey
  if fEnable then checkEnable w nID
  let vchSetState := setNum nID.toNat 4 ++ vchPubKey
  require (vchSetState.length == 4) "SetStakerState(): TSNH scriptSetState length mismatch"
  return push [] vchSetState ++ [if fEnable then opEnable else opDisable]

def keyIDClaimant (typetxo : TxnOutType) (vSolutions : List Bytes) : Except String Bytes :=
  match typetxo with
  | .pubkey => .ok (w.crypto.hash160 (vSolutions.headD []))
  | .pubkeyhash | .claim => .ok (vSolutions.getLastD [])
  | _ => .error "ClaimQPoSBalance(): The input type is not valid."

def claimant (w : WalletCtx) (txid : Bytes) (nOut : UInt32) : Except String (Bytes × CPubKey) :=
  match w.mapWallet txid with
  | none => .error "ClaimQPoSBalance(): Wallet has no such transaction."
  | some wtxPrev =>
    match wtxPrev.vout[nOut.toNat]? with
    | none => .error "ClaimQPoSBalance(): Wallet has no such output."
    | some prevout =>
      match solver prevout.scriptPubKey with
      | none => .error "ClaimQPoSBalance(): The input destination is not valid."
      | some (typetxo, vSolutions) => do
        let keyID ← keyIDClaimant w typetxo vSolutions
        match w.getPubKey keyID with
        | none => .error "ClaimQPoSBalance(): Wallet does not own claimant key."
        | some pubKeyClaimant => .ok (keyID, pubKeyClaimant)

def claimQPoSBalance (nOut : UInt32) (nValue : Int64) : Except String CScript := do
  checkQPoSEssentials w txid 0 []
  let (keyID, pubKeyClaimant) ← claimant w txid nOut
  require (w.pregistryMain.canClaim w.env w.now pubKeyClaimant nValue.toInt)
    "ClaimQPoSBalance(): Claim is not valid."
  let vchClaim := pubKeyClaimant ++ setNum nValue.toUInt64.toNat 8
  require (vchClaim.length == 41) "ClaimQPoSBalance(): TSNH scriptClaim length mismatch"
  return push [] vchClaim ++ [opClaim, opDup, opHash160] ++ push [] keyID ++
    [opEqualVerify, opCheckSig]

def setStakerMeta (nID : UInt32) (vchPubKey sKey sValue : Bytes) : Except String CScript := do
  checkQPoSEssentials w txid nID vchPubKey
  let vchSetMeta := setNum nID.toNat 4 ++ vchPubKey ++ padTo 16 sKey ++ padTo 40 sValue
  require (vchSetMeta.length == 60) "SetStakerMeta(): TSNH scriptSetMeta length mismatch"
  return push [] vchSetMeta ++ [opSetMeta]

/-- The calls that act on a registered staker or a balance. The alias has been resolved to the id. -/
inductive StakerCall where
  | setKey (keytype : QPKeyType) (nID : UInt32) (vchPubKey : Bytes) (nPcm : UInt32)
  | setState (fEnable : Bool) (nID : UInt32)
  | claim (nOut : UInt32) (nAmount : Int64)
  | setMeta (nID : UInt32) (sKey sValue : Bytes)

def QPKeyType.opcode : QPKeyType → UInt8
  | .owner => opSetOwner
  | .manager => opSetManager
  | .delegate => opSetDelegate
  | .controller => opSetController

def QPKeyType.outType : QPKeyType → TxnOutType
  | .owner => .setOwner
  | .manager => .setManager
  | .delegate => .setDelegate
  | .controller => .setController

def rpcEssentials : Except String Unit := do
  require (!w.isLocked)
    "Error: Please enter the wallet passphrase with walletpassphrase first."
  require (txid.length == 64) "txid is not 64 char"

/-- The script of a call. Only key changes pass a key, and only a change of the delegate a payout. -/
def StakerCall.script : StakerCall → Except String CScript
  | .setKey keytype nID vchPubKey nPcm => do
    rpcEssentials w txid
    require (vchPubKey.length == 33) "Key is not a compressed pubkey"
    setStakerKey w txid nID vchPubKey keytype.opcode (if keytype = .delegate then nPcm else 0)
  | .setState fEnable nID => do
    rpcEssentials w txid
    setStakerState w txid nID [] fEnable
  | .claim nOut nAmount => do
    rpcEssentials w txid
    claimQPoSBalance w txid nOut nAmount
  | .setMeta nID sKey sValue => do
    require (checkMetaKey sKey) "Meta key is not valid"
    require (checkMetaValue sValue) "Meta value is not valid"
    rpcEssentials w txid
    setStakerMeta w txid nID [] sKey sValue

/-- The data of the operations, as the decoders return it. -/
inductive StakerData where
  | setKey (setkey : QposSetKey)
  | setState (id : Nat)
  | claim (claim : QposClaim)
  | setMeta (setmeta : QposSetMeta)
  deriving DecidableEq

def extractData (t : TxnOutType) (vch : Bytes) : Option StakerData :=
  match t with
  | .setOwner | .setManager | .setDelegate | .setController =>
    (keyTypeOf t).map fun keytype => .setKey (extractSetKey keytype vch)
  | .enable | .disable => some (.setState (extractSetState vch))
  | .claim => some (.claim (extractClaim vch))
  | .setMeta => some (.setMeta (extractSetMeta vch))
  | _ => none

def StakerCall.outType : StakerCall → TxnOutType
  | .setKey keytype .. => keytype.outType
  | .setState fEnable _ => if fEnable then .enable else .disable
  | .claim .. => .claim
  | .setMeta .. => .setMeta

/-- The fields that a call puts into its payload. The key of a claim is the one that the wallet has for
the input. -/
def StakerCall.data : StakerCall → Option StakerData
  | .setKey keytype nID vchPubKey nPcm =>
    some (.setKey ⟨keytype, nID.toNat, vchPubKey, if keytype = .delegate then nPcm.toNat else 0⟩)
  | .setState _ nID => some (.setState nID.toNat)
  | .claim nOut nAmount =>
    (claimant w txid nOut).toOption.map fun c => .claim ⟨c.2, nAmount.toInt⟩
  | .setMeta nID sKey sValue => some (.setMeta ⟨nID.toNat, sKey, sValue⟩)

/-- The wallet may spend, and the input has an id of the right length. -/
def WalletCtx.Ready : Prop :=
  w.isLocked = false ∧ w.fWalletUnlockMintOnly = false ∧ txid.length = 64

def WalletCtx.Knows (nID : UInt32) : Prop :=
  nID = 0 ∨ w.pregistryMain.isQualifiedStaker nID.toNat = true

def StakerCall.IsValid : StakerCall → Prop
  | .setKey keytype nID vchPubKey nPcm =>
    w.Ready txid ∧ w.Knows nID ∧ vchPubKey.length = 33 ∧ (keytype = .delegate → nPcm ≤ 100000)
  | .setState fEnable nID =>
    w.Ready txid ∧ w.Knows nID ∧ (fEnable = true → isEnabledStaker w.pregistryMain nID.toNat = false ∧
      w.pregistryMain.isQualifiedStaker nID.toNat = true ∧
      w.pregistryMain.canEnableStaker w.env nID.toNat w.nBestHeight = true)
  | .claim nOut nAmount =>
    w.Ready txid ∧ ∃ keyID key, claimant w txid nOut = .ok (keyID, key) ∧
      w.pregistryMain.canClaim w.env w.now key nAmount.toInt = true ∧ key.length = 33
  | .setMeta nID sKey sValue =>
    w.Ready txid ∧ w.Knows nID ∧ checkMetaKey sKey = true ∧ checkMetaValue sValue = true

section Scripts

variable {w : WalletCtx} {txid : Bytes} {nID : UInt32} {script : CScript} {k : Unit → Except String β}
  {b : β} {sError : String} {fOK : Bool}

theorem require_bind_eq_ok : require fOK sError >>= k = .ok b ↔ fOK = true ∧ k () = .ok b := by
  cases fOK with
  | true => exact ⟨fun h => ⟨rfl, h⟩, fun h => h.2⟩
  | false =>
    constructor
    · intro h
      cases h
    · rintro ⟨hfalse, -⟩
      cases hfalse

theorem require_eq_ok : require fOK sError = .ok () ↔ fOK = true := by
  cases fOK <;> simp [require]

theorem rpcEssentials_bind_eq_ok :
    rpcEssentials w txid >>= k = .ok b ↔ w.isLocked = false ∧ txid.length = 64 ∧ k () = .ok b := by
  rw [rpcEssentials, bind_assoc, require_bind_eq_ok, require_bind_eq_ok]
  simp

theorem checkQPoSEssentials_bind_eq_ok :
    checkQPoSEssentials w txid nID vchPubKey >>= k = .ok b ↔ w.Ready txid ∧ w.Knows nID ∧
      (vchPubKey = [] ∨ vchPubKey.length = 33) ∧ k () = .ok b := by
  simp only [checkQPoSEssentials, bind_assoc, require_bind_eq_ok, WalletCtx.Ready, WalletCtx.Knows,
    Bool.not_eq_true', Bool.or_eq_true, beq_iff_eq, List.isEmpty_iff]
  tauto

theorem return_eq_ok {α : Type} {a b : α} : (return a : Except String α) = .ok b ↔ b = a :=
  ⟨fun h => by cases h; rfl, fun h => by rw [h]; rfl⟩

theorem setKey_script_eq_ok {keytype : QPKeyType} {nPcm : UInt32} :
    (StakerCall.setKey keytype nID vchPubKey nPcm).script w txid = .ok script ↔
      (StakerCall.setKey keytype nID vchPubKey nPcm).IsValid w txid ∧
      script = push [] (setNum nID.toNat 4 ++ vchPubKey ++
        if keytype = .delegate then setNum nPcm.toNat 4 else []) ++ [keytype.opcode] := by
  have hdelegate : (keytype.opcode == opSetDelegate) = decide (keytype = .delegate) := by
    cases keytype <;> rfl
  simp only [StakerCall.script, setStakerKey, rpcEssentials_bind_eq_ok, require_bind_eq_ok,
    checkQPoSEssentials_bind_eq_ok, hdelegate, return_eq_ok, StakerCall.IsValid, WalletCtx.Ready,
    beq_iff_eq, List.length_append, length_setNum]
  by_cases hk : keytype = .delegate
  · simp only [hk, if_true, decide_true, Bool.true_and, length_setNum]
    grind
  · simp only [hk, if_false, decide_false, Bool.false_and]
    grind

theorem setState_script_eq_ok {fEnable : Bool} :
    (StakerCall.setState fEnable nID).script w txid = .ok script ↔
      (StakerCall.setState fEnable nID).IsValid w txid ∧
      script = push [] (setNum nID.toNat 4) ++ [if fEnable then opEnable else opDisable] := by
  simp only [StakerCall.script, setStakerState, checkEnable, rpcEssentials_bind_eq_ok,
    checkQPoSEssentials_bind_eq_ok, StakerCall.IsValid, WalletCtx.Ready]
  cases fEnable with
  | false =>
    simp only [Bool.false_eq_true, if_false, require_bind_eq_ok, return_eq_ok, List.append_nil,
      length_setNum, beq_self_eq_true]
    grind
  | true =>
    simp only [if_true, bind_assoc, require_bind_eq_ok, return_eq_ok, List.append_nil,
      length_setNum, beq_self_eq_true]
    grind

theorem claim_script_eq_ok {nOut : UInt32} {nAmount : Int64} :
    (StakerCall.claim nOut nAmount).script w txid = .ok script ↔
      w.Ready txid ∧ ∃ keyID key, claimant w txid nOut = .ok (keyID, key) ∧
        w.pregistryMain.canClaim w.env w.now key nAmount.toInt = true ∧ key.length = 33 ∧
        script = push [] (key ++ setNum nAmount.toUInt64.toNat 8) ++ [opClaim, opDup, opHash160] ++
          push [] keyID ++ [opEqualVerify, opCheckSig] := by
  rw [StakerCall.script, rpcEssentials_bind_eq_ok, claimQPoSBalance, checkQPoSEssentials_bind_eq_ok,
    Fallible.bind_eq_ok_iff]
  simp only [require_bind_eq_ok, return_eq_ok, Prod.exists, WalletCtx.Ready, WalletCtx.Knows,
    List.length_append, length_setNum, beq_iff_eq]
  grind

theorem setMeta_script_eq_ok : (StakerCall.setMeta nID sKey sValue).script w txid = .ok script ↔
      (StakerCall.setMeta nID sKey sValue).IsValid w txid ∧
      script = push [] (setNum nID.toNat 4 ++ padTo 16 sKey ++ padTo 40 sValue) ++ [opSetMeta] := by
  have hkey : checkMetaKey sKey = true → (padTo 16 sKey).length = 16 := by
    intro h
    rw [length_padTo, eq_of_beq h]
    rfl
  have hvalue : checkMetaValue sValue = true → (padTo 40 sValue).length = 40 := by
    intro h
    rw [length_padTo]
    exact max_eq_left (of_decide_eq_true (Bool.and_eq_true_iff.1 h).1)
  simp only [StakerCall.script, setStakerMeta, rpcEssentials_bind_eq_ok, require_bind_eq_ok,
    checkQPoSEssentials_bind_eq_ok, return_eq_ok, StakerCall.IsValid, WalletCtx.Ready, beq_iff_eq,
    List.length_append, length_setNum, List.append_nil]
  grind

end Scripts

section Decoding

variable {nID : UInt32}

theorem take_setNum (n k : Nat) (rest : Bytes) : (setNum n k ++ rest).take k = setNum n k :=
  List.take_left' (length_setNum n k)

theorem drop_setNum (n k : Nat) (rest : Bytes) : (setNum n k ++ rest).drop k = rest :=
  List.drop_left' (length_setNum n k)

theorem pushOpcode_of_length {data : Bytes} {n : Nat} (hlen : data.length = n) (hn : n < 76) :
    pushOpcode data = UInt8.ofNat n := by
  rw [pushOpcode, if_pos (by omega), hlen]

theorem extractSetKey_payload (keytype : QPKeyType) (hkey : vchPubKey.length = 33)
    (nPcm : UInt32) : extractSetKey keytype (setNum nID.toNat 4 ++ vchPubKey ++
        if keytype = .delegate then setNum nPcm.toNat 4 else []) =
      ⟨keytype, nID.toNat, vchPubKey, if keytype = .delegate then nPcm.toNat else 0⟩ := by
  have hdrop : ∀ rest : Bytes, (setNum nID.toNat 4 ++ (vchPubKey ++ rest)).drop 37 = rest := by
    intro rest
    rw [← List.append_assoc]
    exact List.drop_left' (by rw [List.length_append, length_setNum, hkey])
  rw [extractSetKey, List.append_assoc, take_setNum, drop_setNum, List.take_left' hkey, hdrop,
    beValue_uint32]
  congr 1
  by_cases hk : keytype = .delegate
  · rw [if_pos hk, if_pos hk, if_pos hk, List.take_of_length_le (by rw [length_setNum]), beValue_uint32]
  · rw [if_neg hk, if_neg hk]

theorem solver_setKey (keytype : QPKeyType) (hkey : vchPubKey.length = 33)
    (nPcm : UInt32) : solver (push [] (setNum nID.toNat 4 ++ vchPubKey ++
        if keytype = .delegate then setNum nPcm.toNat 4 else []) ++ [keytype.opcode]) =
      some (keytype.outType, [setNum nID.toNat 4 ++ vchPubKey ++
        if keytype = .delegate then setNum nPcm.toNat 4 else []]) := by
  have hlen : (setNum nID.toNat 4 ++ vchPubKey ++
      if keytype = .delegate then setNum nPcm.toNat 4 else []).length =
      if keytype = .delegate then 41 else 37 := by
    rw [List.length_append, List.length_append, length_setNum, hkey]
    split
    · rw [length_setNum]
    · rfl
  have hbound : (if keytype = .delegate then 41 else 37) < 76 := by split <;> decide
  have hpos : 0 < if keytype = .delegate then 41 else 37 := by split <;> decide
  refine solver_operation (by omega) (by omega) ?_ ?_ ?_
  · rw [pushOpcode_of_length hlen hbound]
    cases keytype <;> decide
  · cases keytype <;> decide
  · cases keytype <;> simpa [txTypeIsStandard, QPKeyType.outType] using hlen

theorem solver_setState (fEnable : Bool) :
    solver (push [] (setNum nID.toNat 4) ++ [if fEnable then opEnable else opDisable]) =
      some (if fEnable then .enable else .disable, [setNum nID.toNat 4]) := by
  have hlen := length_setNum nID.toNat 4
  refine solver_operation (by omega) (by omega) ?_ ?_ ?_
  · rw [pushOpcode_of_length hlen (by decide)]
    cases fEnable <;> decide
  · cases fEnable <;> decide
  · cases fEnable <;> rfl

theorem ne_zero_of_checkMetaKey (h : checkMetaKey sKey = true) : ∀ c ∈ sKey, c ≠ 0 := by
  rw [checkMetaKey, beq_iff_eq] at h
  rw [h]
  decide +kernel

theorem ne_zero_of_checkMetaValue (h : checkMetaValue sValue = true) : ∀ c ∈ sValue, c ≠ 0 := by
  rw [checkMetaValue, Bool.and_eq_true] at h
  rintro c hc rfl
  exact absurd (List.all_eq_true.1 h.2 0 hc) (by decide)

theorem extractSetMeta_payload (hkey : sKey.length ≤ 16)
    (hkey0 : ∀ c ∈ sKey, c ≠ 0) (hvalue0 : ∀ c ∈ sValue, c ≠ 0) :
    extractSetMeta (setNum nID.toNat 4 ++ padTo 16 sKey ++ padTo 40 sValue) =
      ⟨nID.toNat, sKey, sValue⟩ := by
  have h16 : (padTo 16 sKey).length = 16 := by
    rw [length_padTo]
    exact max_eq_left hkey
  have hdrop : (setNum nID.toNat 4 ++ padTo 16 sKey ++ padTo 40 sValue).drop 20 = padTo 40 sValue :=
    List.drop_left' (by rw [List.length_append, length_setNum, h16])
  rw [extractSetMeta, metaValueOf, hdrop, untilZero_padTo 40 hvalue0, metaKeyOf, List.append_assoc,
    take_setNum, drop_setNum, beValue_uint32, QP_MAX_META_KEY_LENGTH, List.take_left' h16,
    untilZero_padTo 16 hkey0]

/-- `Solver` admits a metadata payload whose texts pass their checks, and no other. -/
theorem solver_setMeta_iff (hkey : sKey.length ≤ 16) (hvalue : sValue.length ≤ 40)
    (hkey0 : ∀ c ∈ sKey, c ≠ 0) (hvalue0 : ∀ c ∈ sValue, c ≠ 0) :
    solver (push [] (setNum nID.toNat 4 ++ padTo 16 sKey ++ padTo 40 sValue) ++ [opSetMeta]) =
      some (.setMeta, [setNum nID.toNat 4 ++ padTo 16 sKey ++ padTo 40 sValue]) ↔
    checkMetaKey sKey = true ∧ checkMetaValue sValue = true := by
  have hlen : (setNum nID.toNat 4 ++ padTo 16 sKey ++ padTo 40 sValue).length = 60 := by
    rw [List.length_append, List.length_append, length_setNum, length_padTo, length_padTo]
    omega
  have hread := @extractSetMeta_payload sKey sValue nID hkey hkey0 hvalue0
  have hstandard : txTypeIsStandard .setMeta
      [setNum nID.toNat 4 ++ padTo 16 sKey ++ padTo 40 sValue] = true ↔
      checkMetaKey sKey = true ∧ checkMetaValue sValue = true := by
    rw [txTypeIsStandard, List.headD_cons, hlen, show metaKeyOf _ = sKey from
      congrArg QposSetMeta.key hread, show metaValueOf _ = sValue from congrArg QposSetMeta.value hread]
    simp
  constructor
  · intro hsolver
    exact hstandard.1 (txTypeIsStandard_of_solver hsolver (by decide))
  · intro hchecks
    refine solver_operation (by omega) (by omega) ?_ (by decide) (hstandard.2 hchecks)
    rw [pushOpcode_of_length hlen (by decide)]
    decide

end Decoding

section Calls

variable {w : WalletCtx} {txid : Bytes}

theorem length_keyID (hhash160 : ∀ key, (w.crypto.hash160 key).length = 20) {nOut : UInt32}
    {keyID : Bytes} {key : CPubKey} (h : claimant w txid nOut = .ok (keyID, key)) : keyID.length = 20 := by
  rw [claimant] at h
  split at h
  · cases h
  split at h
  · cases h
  split at h
  · cases h
  next typetxo vSolutions hsolver =>
  obtain ⟨keyID', hkeyID, h⟩ := Fallible.bind_eq_ok_iff.1 h
  have hlen : keyID'.length = 20 := by
    unfold keyIDClaimant at hkeyID
    split at hkeyID
    · cases hkeyID
      exact hhash160 _
    · cases hkeyID
      exact length_keyHash hsolver (.inl rfl)
    · cases hkeyID
      exact length_keyHash hsolver (.inr rfl)
    · cases hkeyID
  split at h
  · cases h
  · cases h
    exact hlen

theorem exists_script_iff (call : StakerCall) :
    (∃ script, call.script w txid = .ok script) ↔ call.IsValid w txid := by
  cases call with
  | setKey keytype nID vchPubKey nPcm =>
    simp only [setKey_script_eq_ok, exists_and_left, exists_eq, and_true]
  | setState fEnable nID => simp only [setState_script_eq_ok, exists_and_left, exists_eq, and_true]
  | claim nOut nAmount =>
    simp only [claim_script_eq_ok, StakerCall.IsValid]
    constructor
    · rintro ⟨script, hready, keyID, key, hclaimant, hcan, hlen, -⟩
      exact ⟨hready, keyID, key, hclaimant, hcan, hlen⟩
    · rintro ⟨hready, keyID, key, hclaimant, hcan, hlen⟩
      exact ⟨_, hready, keyID, key, hclaimant, hcan, hlen, rfl⟩
  | setMeta nID sKey sValue =>
    simp only [setMeta_script_eq_ok, exists_and_left, exists_eq, and_true]

/-- A call builds a script exactly when its checks pass, and then `Solver` gives the script the type of
the call and the decoder of that type reads back the fields of the call. -/
theorem script_decoded (hhash160 : ∀ key, (w.crypto.hash160 key).length = 20) (call : StakerCall) :
    ((∃ script, call.script w txid = .ok script) ↔ call.IsValid w txid) ∧
    ∀ script, call.script w txid = .ok script → ∃ vSolutions data,
      solver script = some (call.outType, vSolutions) ∧ call.data w txid = some data ∧
      extractData call.outType (vSolutions.headD []) = some data := by
  refine ⟨exists_script_iff call, fun script hscript => ?_⟩
  cases call with
  | setKey keytype nID vchPubKey nPcm =>
    obtain ⟨⟨-, -, hkey, -⟩, rfl⟩ := setKey_script_eq_ok.1 hscript
    refine ⟨_, _, solver_setKey keytype hkey nPcm, rfl, ?_⟩
    rw [List.headD_cons, ← extractSetKey_payload keytype hkey nPcm]
    cases keytype <;> rfl
  | setState fEnable nID =>
    obtain ⟨-, rfl⟩ := setState_script_eq_ok.1 hscript
    refine ⟨_, _, solver_setState fEnable, rfl, ?_⟩
    have hid : extractSetState (setNum nID.toNat 4) = nID.toNat := by
      rw [extractSetState, List.take_of_length_le (by rw [length_setNum]), beValue_uint32]
    rw [List.headD_cons]
    cases fEnable <;> exact congrArg (fun id => some (StakerData.setState id)) hid
  | claim nOut nAmount =>
    obtain ⟨-, keyID, key, hclaimant, -, hlen, rfl⟩ := claim_script_eq_ok.1 hscript
    have hdata : (key ++ setNum nAmount.toUInt64.toNat 8).length = 41 := by
      rw [List.length_append, length_setNum, hlen]
    refine ⟨_, .claim ⟨key, nAmount.toInt⟩, solver_claim hdata (length_keyID hhash160 hclaimant), ?_, ?_⟩
    · rw [StakerCall.data, hclaimant]
      rfl
    · rw [List.headD_cons]
      change some (StakerData.claim (extractClaim _)) = _
      rw [extractClaim, List.take_left' hlen, List.drop_left' hlen,
        List.take_of_length_le (by rw [length_setNum]), int64Of_setNum]
  | setMeta nID sKey sValue =>
    obtain ⟨⟨-, -, hkey, hvalue⟩, rfl⟩ := setMeta_script_eq_ok.1 hscript
    have hkey16 : sKey.length ≤ 16 := by
      rw [eq_of_beq hkey]
      decide
    have hvalue40 : sValue.length ≤ 40 := of_decide_eq_true (Bool.and_eq_true_iff.1 hvalue).1
    have hkey0 := ne_zero_of_checkMetaKey hkey
    have hvalue0 := ne_zero_of_checkMetaValue hvalue
    refine ⟨_, _, (solver_setMeta_iff hkey16 hvalue40 hkey0 hvalue0).2 ⟨hkey, hvalue⟩, rfl, ?_⟩
    rw [List.headD_cons, ← extractSetMeta_payload hkey16 hkey0 hvalue0]
    rfl

end Calls

def openWallet : WalletCtx where
  env := QPRegistry.mainEnv
  crypto := { ownCrypto with ripemd160 := fun vch => (vch ++ List.replicate 20 0).take 20 }
  pregistryMain := keyedRegistry
  now := 1700000000
  nBestHeight := 5800000
  pindexBest := claimantTip
  isLocked := false
  fWalletUnlockMintOnly := false
  mapWallet _ := none
  getPubKey _ := none

def delegateCall : StakerCall := .setKey .delegate 1 claimantKey 5000

theorem script_decoded_delegate :
    ∃ script vSolutions, delegateCall.script openWallet (List.replicate 64 48) = .ok script ∧
      solver script = some (.setDelegate, vSolutions) ∧
      extractData .setDelegate (vSolutions.headD []) =
        some (.setKey ⟨.delegate, 1, claimantKey, 5000⟩) := by
  have hvalid : delegateCall.IsValid openWallet (List.replicate 64 48) :=
    ⟨⟨rfl, rfl, rfl⟩, .inr (by decide +kernel), by decide, fun _ => by decide⟩
  have hhash160 : ∀ key, (openWallet.crypto.hash160 key).length = 20 := by
    intro key
    simp [openWallet, Crypto.hash160]
  obtain ⟨hiff, hread⟩ := script_decoded hhash160 delegateCall
  obtain ⟨script, hscript⟩ := hiff.2 hvalid
  obtain ⟨vSolutions, data, hsolver, hdata, hextract⟩ := hread script hscript
  cases hdata
  exact ⟨script, vSolutions, hscript, hsolver, hextract⟩

end Stealth

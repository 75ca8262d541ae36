import Stealth.Script.Interpreter
import Stealth.Qpos.TxDetails

/-!
Standard output scripts (`Solver`) and the verification of an input against the output it spends.
-/

namespace Stealth

open CScript

variable {opcode2 opcode1 : UInt8} {vch : Bytes} {found : List Bytes}

def opSmallData : UInt8 := 0xf9
def opSmallInteger : UInt8 := 0xfa
def opPubKeys : UInt8 := 0xfb
def opPubKeyHash : UInt8 := 0xfd
def opPubKey : UInt8 := 0xfe

def opReturn : UInt8 := 0x6a
def opDup : UInt8 := 0x76
def opEqual : UInt8 := 0x87
def opEqualVerify : UInt8 := 0x88
def opHash160 : UInt8 := 0xa9
def opCheckSig : UInt8 := 0xac
def opCheckMultisig : UInt8 := 0xae
def opPurchase1 : UInt8 := 0xc1
def opPurchase4 : UInt8 := 0xc2
def opSetOwner : UInt8 := 0xc3
def opSetDelegate : UInt8 := 0xc4
def opSetController : UInt8 := 0xc5
def opEnable : UInt8 := 0xc6
def opDisable : UInt8 := 0xc7
def opClaim : UInt8 := 0xc8
def opSetMeta : UInt8 := 0xc9
def opSetManager : UInt8 := 0xca
def opFeework : UInt8 := 0xd1

def mTemplates : List (TxnOutType × CScript) :=
  [ (.pubkey, [opPubKey, opCheckSig]),
    (.pubkeyhash, [opDup, opHash160, opPubKeyHash, opEqualVerify, opCheckSig]),
    (.multisig, [opSmallInteger, opPubKeys, opSmallInteger, opCheckMultisig]),
    (.purchase1, [0x39, opPurchase1]),
    (.purchase4, [opPushdata1, opPurchase4]),
    (.setOwner, [0x25, opSetOwner]),
    (.setManager, [0x25, opSetManager]),
    (.setDelegate, [0x29, opSetDelegate]),
    (.setController, [0x25, opSetController]),
    (.enable, [0x04, opEnable]),
    (.disable, [0x04, opDisable]),
    (.claim, [0x29, opClaim, opDup, opHash160, opPubKeyHash, opEqualVerify, opCheckSig]),
    (.setMeta, [0x3c, opSetMeta]),
    (.feework, [0x10, opFeework]),
    (.nullData, [opReturn]),
    (.nullData, [opReturn, opSmallData]),
    (.nullData, [opReturn, opSmallData, opReturn, opSmallData]) ]

def MAX_OP_RETURN_RELAY : Nat := 48

def decodeOpN (opcode : UInt8) : UInt8 := if opcode = 0 then 0 else opcode - 0x50

/-- What an instruction adds to the solutions under a template instruction, if it matches. -/
def matchOp (opcode1 opcode2 : UInt8) (vch1 : Bytes) : Option (List Bytes) :=
  if opcode2 = opPubKey then
    if vch1.length < 33 ∨ vch1.length > 120 then none else some [vch1]
  else if opcode2 = opPubKeyHash then
    if vch1.length ≠ 20 then none else some [vch1]
  else if opcode2 = opSmallInteger then
    if opcode1 = 0 ∨ 0x51 ≤ opcode1 ∧ opcode1 ≤ op16 then some [[decodeOpN opcode1]] else none
  else if opcode2 = opSmallData then
    if vch1.length > MAX_OP_RETURN_RELAY then none else some []
  else if opcode1 ≠ opcode2 ∨ opcode2 > opPushdata4 ∧ vch1 ≠ [] then none
  else if opcode2 ≤ opPushdata4 then some [vch1]
  else some []

def readPubKeys : Nat → UInt8 × Bytes × Bytes → Option (List Bytes × UInt8 × Bytes × Bytes)
  | 0, _ => none
  | fuel + 1, (opcode1, vch1, pc1) =>
    if 33 ≤ vch1.length ∧ vch1.length ≤ 120 then
      match getOp pc1 with
      | none => none
      | some next =>
        match readPubKeys fuel next with
        | none => none
        | some (keys, last) => some (vch1 :: keys, last)
    else some ([], opcode1, vch1, pc1)

/-- The comparison of a script with a template: the solutions when they match. A script that ends
inside `OP_PUBKEYS` does not match what follows there. -/
def matchTemplate : Nat → Bytes → CScript → Option (List Bytes)
  | _, pc1, [] => if pc1.isEmpty then some [] else none
  | 0, _, _ :: _ => none
  | fuel + 1, pc1, opcode2 :: pc2 =>
    (getOp pc1).bind fun (opcode1, vch1, pc1) =>
      if opcode2 = opPubKeys then
        (readPubKeys (fuel + 1) (opcode1, vch1, pc1)).bind fun (keys, opcode1, vch1, pc1) =>
          match pc2 with
          | [] => none
          | opcode2 :: pc2 =>
            (matchOp opcode1 opcode2 vch1).bind fun found =>
              (matchTemplate fuel pc1 pc2).map (keys ++ found ++ ·)
      else
        (matchOp opcode1 opcode2 vch1).bind fun found =>
          (matchTemplate fuel pc1 pc2).map (found ++ ·)

variable {pc : Bytes} {fuel : Nat} {vSolutions : List Bytes}

theorem matchTemplate_nil (h : matchTemplate fuel pc [] = some vSolutions) :
    pc = [] ∧ vSolutions = [] := by
  rw [matchTemplate] at h
  split at h
  · next hpc =>
    cases h
    exact ⟨List.isEmpty_iff.mp hpc, rfl⟩
  · cases h

theorem matchTemplate_cons {tplate : CScript} (hkeys : opcode2 ≠ opPubKeys)
    (h : matchTemplate fuel pc (opcode2 :: tplate) = some vSolutions) :
    ∃ fuel' opcode1 vch next found rest, getOp pc = some (opcode1, vch, next) ∧
      matchOp opcode1 opcode2 vch = some found ∧ matchTemplate fuel' next tplate = some rest ∧
      vSolutions = found ++ rest := by
  cases fuel with
  | zero => cases h
  | succ fuel =>
    rw [matchTemplate, Option.bind_eq_some_iff] at h
    obtain ⟨⟨opcode1, vch, next⟩, hop, h⟩ := h
    simp only [if_neg hkeys, Option.bind_eq_some_iff] at h
    obtain ⟨found, hfound, h⟩ := h
    obtain ⟨rest, hrest, heq⟩ := Option.map_eq_some_iff.mp h
    exact ⟨fuel, opcode1, vch, next, found, rest, hop, hfound, hrest, heq.symm⟩

theorem matchOp_of_lt (hlt : opcode2 < opSmallData) : matchOp opcode1 opcode2 vch =
    if opcode1 ≠ opcode2 ∨ opcode2 > opPushdata4 ∧ vch ≠ [] then none
    else if opcode2 ≤ opPushdata4 then some [vch] else some [] := by
  have hne : ∀ b : UInt8, opSmallData ≤ b → opcode2 ≠ b := by
    rintro b hb rfl
    exact UInt8.not_le.2 hlt hb
  rw [matchOp, if_neg (hne _ (by decide)), if_neg (hne _ (by decide)), if_neg (hne _ (by decide)),
    if_neg (hne _ (by decide))]

/-- An instruction of a template that is no push and no parameter stands for itself. -/
theorem matchOp_op (hop : opPushdata4 < opcode2 ∧ opcode2 < opSmallData)
    (h : matchOp opcode1 opcode2 vch = some found) : opcode1 = opcode2 ∧ found = [] := by
  rw [matchOp_of_lt hop.2, if_neg (UInt8.not_le.mpr hop.1)] at h
  split at h
  · cases h
  · next hsame =>
    cases h
    exact ⟨not_not.mp fun hdiff => hsame (.inl hdiff), rfl⟩

theorem matchOp_pubKeyHash
    (h : matchOp opcode1 opPubKeyHash vch = some found) : vch.length = 20 ∧ found = [vch] := by
  rw [matchOp, if_neg (by decide), if_pos rfl] at h
  split at h
  · cases h
  · next hlen =>
    cases h
    exact ⟨not_not.mp hlen, rfl⟩

theorem matchOp_push (hop : opcode2 ≤ opPushdata4) (h : matchOp opcode1 opcode2 vch = some found) :
    opcode1 = opcode2 ∧ found = [vch] := by
  rw [matchOp_of_lt (UInt8.lt_of_le_of_lt hop (by decide)), if_pos hop] at h
  split at h
  · cases h
  · next hsame =>
    cases h
    exact ⟨not_not.mp fun hdiff => hsame (.inl hdiff), rfl⟩

def untilZero (v : Bytes) : Bytes := v.takeWhile (· != 0)

/-- The key of a metadata operation: it ends at a zero or after 16 bytes. -/
def metaKeyOf (v : Bytes) : Bytes := untilZero ((v.drop 4).take QP_MAX_META_KEY_LENGTH)

def metaValueOf (v : Bytes) : Bytes := untilZero (v.drop 20)

def aliasOf (v : Bytes) : Bytes := untilZero (v.drop (v.length - 16))

def txTypeIsStandard (t : TxnOutType) (vSolutions : List Bytes) : Bool :=
  let v := vSolutions.headD []
  match t with
  | .multisig =>
    let m := v.headD 0
    let n := (vSolutions.getLastD []).headD 0
    decide (1 ≤ m) && decide (1 ≤ n) && decide (m ≤ n) && decide (n ≤ 3) &&
      vSolutions.length - 2 == n.toNat
  | .purchase1 => v.length == 57 && aliasIsValid (aliasOf v)
  | .purchase4 => (v.length == 127 || v.length == 160) && aliasIsValid (aliasOf v)
  | .setOwner | .setManager | .setController => v.length == 37
  | .setDelegate | .claim => v.length == 41
  | .setMeta =>
    v.length == 60 && checkMetaKey (metaKeyOf v) && checkMetaValue (metaValueOf v)
  | .feework => v.length == 16
  | .nonstandard => false
  | _ => true

def isPayToScriptHash (s : CScript) : Bool :=
  s.length == 23 && s.getD 0 0 == opHash160 && s.getD 1 0 == 0x14 && s.getD 22 0 == opEqual

def findTemplate (script : CScript) : List (TxnOutType × CScript) → Option (TxnOutType × List Bytes)
  | [] => none
  | (t, tplate) :: rest =>
    match matchTemplate script.length script tplate with
    | some vSolutions => some (t, vSolutions)
    | none => findTemplate script rest

/-- `Solver`: the type of an output script with its keys, hashes and data. -/
def solver (scriptPubKey : CScript) : Option (TxnOutType × List Bytes) :=
  if isPayToScriptHash scriptPubKey then
    some (.scripthash, [(scriptPubKey.drop 2).take 20])
  else
    match findTemplate scriptPubKey mTemplates with
    | none => none
    | some (t, vSolutions) => if txTypeIsStandard t vSolutions then some (t, vSolutions) else none

def isPushOnlyFrom : Nat → Bytes → Bool
  | _, [] => true
  | 0, _ :: _ => false
  | fuel + 1, pc =>
    match getOp pc with
    | none => false
    | some (opcode, _, pc) => decide (opcode ≤ op16) && isPushOnlyFrom fuel pc

def isPushOnly (s : CScript) : Bool := isPushOnlyFrom s.length s

/-- The script that a script hash stands for is run on what the input script left. -/
def verifyScriptHash (ctx : EvalContext) (scriptSig : CScript) (stackCopy : List Bytes) : Bool :=
  isPushOnly scriptSig &&
    match stackCopy with
    | [] => false
    | pubKeySerialized :: stack =>
      match evalScript ctx stack pubKeySerialized with
      | none | some [] => false
      | some (top :: _) => castToBool top

def verifyScript (ctx : EvalContext) (scriptSig scriptPubKey : CScript) : Bool :=
  match evalScript ctx [] scriptSig with
  | none => false
  | some stackCopy =>
    match evalScript ctx stackCopy scriptPubKey with
    | none | some [] => false
    | some (top :: _) =>
      castToBool top &&
        (!isPayToScriptHash scriptPubKey || verifyScriptHash ctx scriptSig stackCopy)

end Stealth

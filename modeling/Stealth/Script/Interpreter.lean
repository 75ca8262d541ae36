import Stealth.Script.Signature

/-!
The script interpreter `EvalScript`, on a stack of byte strings, top first. Every failure is `none` here.
-/

namespace Stealth

open Encoding CScript

variable {ctx : EvalContext} {pc vch : Bytes} {opcode : UInt8} {st st' : ScriptState}

/-- `CBigNum::setvch`: lowest byte first, with the sign in the highest bit. -/
def setVch (vch : Bytes) : Int :=
  let nSign := 2 ^ (8 * vch.length - 1)
  if vch.isEmpty then 0
  else if nSign ≤ leValue vch then -((leValue vch - nSign : Nat) : Int)
  else leValue vch

def getVch (bn : Int) : Bytes :=
  let n := bn.natAbs
  let w := n.log2 / 8 + 1
  if n = 0 then []
  else if n < 2 ^ (8 * w - 1) then leBytes w (if bn < 0 then n + 2 ^ (8 * w - 1) else n)
  else leBytes w n ++ [if bn < 0 then 0x80 else 0]

def castToBigNum (vch : Bytes) (nMaxNumSize : Nat) : Option Int :=
  if vch.length > nMaxNumSize then none else some (setVch vch)

def castToNum (vch : Bytes) : Option Int := castToBigNum vch 4

def castToBool : Bytes → Bool
  | [] => false
  | ch :: vch => if ch = 0 then castToBool vch else !(vch.isEmpty && ch == 0x80)

def vchBool (f : Bool) : Bytes := if f then [1] else []

def bnBool (f : Bool) : Int := if f then 1 else 0

inductive UnaryOp where
  | add1 | sub1 | negate | abs | not | notEqual0
  deriving DecidableEq, Repr

inductive BinaryOp where
  | add | sub | boolAnd | boolOr | numEqual | numEqualVerify | numNotEqual
  | lessThan | greaterThan | lessThanOrEqual | greaterThanOrEqual | min | max
  deriving DecidableEq, Repr

inductive HashOp where
  | ripemd160 | sha1 | sha256 | hash160 | hash256
  deriving DecidableEq, Repr

/-- The instructions above `OP_PUSHDATA4`, by the cases of `EvalScript`. -/
inductive Opcode where
  | disabled
  | smallInt (n : Int)
  | nop | checkLockTimeVerify | upgradableNop
  | unspendable | claim
  | cond (fNot : Bool) | else_ | endIf | verify
  | toAltStack | fromAltStack
  | drop2 | dup2 | dup3 | over2 | rot2 | swap2
  | ifDup | depth | drop | dup | nip | over | pick (fRoll : Bool) | rot | swap | tuck
  | size
  | equal (fVerify : Bool)
  | unary (op : UnaryOp) | binary (op : BinaryOp) | within
  | hash (op : HashOp)
  | codeSeparator
  | checkSig (fVerify : Bool) | checkMultisig (fVerify : Bool)
  | invalid
  deriving DecidableEq, Repr

/-- The byte codes of `opcodetype`. Reserved codes, `OP_RETURN` and unknown ones fail when they are
executed; `OP_VERIF` and `OP_VERNOTIF` fail wherever they stand. -/
def Opcode.ofByte (b : UInt8) : Opcode :=
  match b.toNat with
  | 0x4f => .smallInt (-1)
  | 0x51 => .smallInt 1 | 0x52 => .smallInt 2 | 0x53 => .smallInt 3 | 0x54 => .smallInt 4
  | 0x55 => .smallInt 5 | 0x56 => .smallInt 6 | 0x57 => .smallInt 7 | 0x58 => .smallInt 8
  | 0x59 => .smallInt 9 | 0x5a => .smallInt 10 | 0x5b => .smallInt 11 | 0x5c => .smallInt 12
  | 0x5d => .smallInt 13 | 0x5e => .smallInt 14 | 0x5f => .smallInt 15 | 0x60 => .smallInt 16
  | 0x61 => .nop
  | 0x63 => .cond false | 0x64 => .cond true | 0x67 => .else_ | 0x68 => .endIf
  | 0x69 => .verify
  | 0x6b => .toAltStack | 0x6c => .fromAltStack
  | 0x6d => .drop2 | 0x6e => .dup2 | 0x6f => .dup3 | 0x70 => .over2 | 0x71 => .rot2
  | 0x72 => .swap2 | 0x73 => .ifDup | 0x74 => .depth | 0x75 => .drop | 0x76 => .dup
  | 0x77 => .nip | 0x78 => .over | 0x79 => .pick false | 0x7a => .pick true | 0x7b => .rot
  | 0x7c => .swap | 0x7d => .tuck
  | 0x7e => .disabled | 0x7f => .disabled | 0x80 => .disabled | 0x81 => .disabled
  | 0x82 => .size
  | 0x83 => .disabled | 0x84 => .disabled | 0x85 => .disabled | 0x86 => .disabled
  | 0x87 => .equal false | 0x88 => .equal true
  | 0x8b => .unary .add1 | 0x8c => .unary .sub1
  | 0x8d => .disabled | 0x8e => .disabled
  | 0x8f => .unary .negate | 0x90 => .unary .abs | 0x91 => .unary .not | 0x92 => .unary .notEqual0
  | 0x93 => .binary .add | 0x94 => .binary .sub
  | 0x95 => .disabled | 0x96 => .disabled | 0x97 => .disabled | 0x98 => .disabled
  | 0x99 => .disabled
  | 0x9a => .binary .boolAnd | 0x9b => .binary .boolOr | 0x9c => .binary .numEqual
  | 0x9d => .binary .numEqualVerify | 0x9e => .binary .numNotEqual | 0x9f => .binary .lessThan
  | 0xa0 => .binary .greaterThan | 0xa1 => .binary .lessThanOrEqual
  | 0xa2 => .binary .greaterThanOrEqual | 0xa3 => .binary .min | 0xa4 => .binary .max
  | 0xa5 => .within
  | 0xa6 => .hash .ripemd160 | 0xa7 => .hash .sha1 | 0xa8 => .hash .sha256
  | 0xa9 => .hash .hash160 | 0xaa => .hash .hash256
  | 0xab => .codeSeparator
  | 0xac => .checkSig false | 0xad => .checkSig true
  | 0xae => .checkMultisig false | 0xaf => .checkMultisig true
  | 0xb0 => .upgradableNop | 0xb1 => .checkLockTimeVerify
  | 0xb2 => .upgradableNop | 0xb3 => .upgradableNop | 0xb4 => .upgradableNop
  | 0xb5 => .upgradableNop | 0xb6 => .upgradableNop | 0xb7 => .upgradableNop
  | 0xb8 => .upgradableNop | 0xb9 => .upgradableNop
  | 0xc1 => .unspendable | 0xc2 => .unspendable | 0xc3 => .unspendable | 0xc4 => .unspendable
  | 0xc5 => .unspendable | 0xc6 => .unspendable | 0xc7 => .unspendable
  | 0xc8 => .claim
  | 0xc9 => .unspendable | 0xca => .unspendable | 0xd1 => .unspendable
  | _ => .invalid

/-- What a script is run against. `nFork` is the fork at the best height. -/
structure EvalContext where
  crypto : Crypto
  nFork : Fork
  txTo : CTransaction
  nIn : UInt32
  flags : Flags
  nHashType : Int32

/-- The state of a run: stacks with their top first, the open conditionals with the innermost first,
the number of counted instructions, and the script after the last `OP_CODESEPARATOR`. -/
structure ScriptState where
  stack : List Bytes
  altstack : List Bytes
  vfExec : List Bool
  nOpCount : Nat
  codeHash : CScript

def LOCKTIME_THRESHOLD : Int := 500000000

def checkLockTime (txTo : CTransaction) (nIn : UInt32) (nLockTime : Int) : Bool :=
  let nTxLockTime : Int := txTo.nLockTime.toNat
  (decide (nTxLockTime < LOCKTIME_THRESHOLD) == decide (nLockTime < LOCKTIME_THRESHOLD)) &&
    decide (nLockTime ≤ nTxLockTime) &&
    match txTo.vin[nIn.toNat]? with
    | none => false
    | some txin => txin.nSequence != 0xffffffff

def UnaryOp.eval (op : UnaryOp) (bn : Int) : Int :=
  match op with
  | .add1 => bn + 1
  | .sub1 => bn - 1
  | .negate => -bn
  | .abs => if bn < 0 then -bn else bn
  | .not => bnBool (bn == 0)
  | .notEqual0 => bnBool (bn != 0)

def BinaryOp.eval (op : BinaryOp) (bn1 bn2 : Int) : Int :=
  match op with
  | .add => bn1 + bn2
  | .sub => bn1 - bn2
  | .boolAnd => bnBool (bn1 != 0 && bn2 != 0)
  | .boolOr => bnBool (bn1 != 0 || bn2 != 0)
  | .numEqual => bnBool (bn1 == bn2)
  | .numEqualVerify => bnBool (bn1 == bn2)
  | .numNotEqual => bnBool (bn1 != bn2)
  | .lessThan => bnBool (bn1 < bn2)
  | .greaterThan => bnBool (bn1 > bn2)
  | .lessThanOrEqual => bnBool (bn1 ≤ bn2)
  | .greaterThanOrEqual => bnBool (bn1 ≥ bn2)
  | .min => if bn1 < bn2 then bn1 else bn2
  | .max => if bn1 > bn2 then bn1 else bn2

def HashOp.eval (c : Crypto) (op : HashOp) (vch : Bytes) : Bytes :=
  match op with
  | .ripemd160 => c.ripemd160 vch
  | .sha1 => c.sha1 vch
  | .sha256 => c.sha256 vch
  | .hash160 => c.hash160 vch
  | .hash256 => serializeUint256 (c.hash vch)

/-- A result on top of the stack, or for a verifying instruction nothing when it is true. -/
def pushResult (fVerify f : Bool) (stack : List Bytes) : Option (List Bytes) :=
  if fVerify then (if f then some stack else none) else some (vchBool f :: stack)

def stackOp : Opcode → List Bytes → Option (List Bytes)
  | .drop2, _ :: _ :: s => some s
  | .dup2, x2 :: x1 :: s => some (x2 :: x1 :: x2 :: x1 :: s)
  | .dup3, x3 :: x2 :: x1 :: s => some (x3 :: x2 :: x1 :: x3 :: x2 :: x1 :: s)
  | .over2, x4 :: x3 :: x2 :: x1 :: s => some (x2 :: x1 :: x4 :: x3 :: x2 :: x1 :: s)
  | .rot2, x6 :: x5 :: x4 :: x3 :: x2 :: x1 :: s => some (x2 :: x1 :: x6 :: x5 :: x4 :: x3 :: s)
  | .swap2, x4 :: x3 :: x2 :: x1 :: s => some (x2 :: x1 :: x4 :: x3 :: s)
  | .ifDup, x :: s => some (if castToBool x then x :: x :: s else x :: s)
  | .depth, s => some (getVch s.length :: s)
  | .drop, _ :: s => some s
  | .dup, x :: s => some (x :: x :: s)
  | .nip, x2 :: _ :: s => some (x2 :: s)
  | .over, x2 :: x1 :: s => some (x1 :: x2 :: x1 :: s)
  | .pick fRoll, x :: y :: s => do
    let n ← castToNum x
    if n < 0 then none
    else
      let vch ← (y :: s)[n.toNat]?
      some (vch :: if fRoll then (y :: s).eraseIdx n.toNat else y :: s)
  | .rot, x3 :: x2 :: x1 :: s => some (x1 :: x3 :: x2 :: s)
  | .swap, x2 :: x1 :: s => some (x1 :: x2 :: s)
  | .tuck, x2 :: x1 :: s => some (x2 :: x1 :: x2 :: s)
  | .size, x :: s => some (getVch x.length :: x :: s)
  | .equal fVerify, x2 :: x1 :: s => pushResult fVerify (x1 == x2) s
  | .unary op, x :: s => do
    let bn ← castToNum x
    some (getVch (op.eval bn) :: s)
  | .binary op, x2 :: x1 :: s => do
    let bn1 ← castToNum x1
    let bn2 ← castToNum x2
    let vch := getVch (op.eval bn1 bn2)
    if op = .numEqualVerify then (if castToBool vch then some s else none) else some (vch :: s)
  | .within, x3 :: x2 :: x1 :: s => do
    let bn1 ← castToNum x1
    let bn2 ← castToNum x2
    let bn3 ← castToNum x3
    some (vchBool (decide (bn2 ≤ bn1) && decide (bn1 < bn3)) :: s)
  | .verify, x :: s => if castToBool x then some s else none
  | .claim, s =>
    -- `OP_CLAIM` drops the claimed key and amount; signature and key lie below
    if s.length = 3 then
      match s with
      | x :: s => if x.length = 41 then some s else none
      | [] => none
    else none
  | _, _ => none

/-- The loop of `OP_CHECKMULTISIG` over signatures and keys, both from the top of the stack on. -/
def checkMultisigLoop (check : Bytes → Bytes → Option Bool) : List Bytes → List Bytes → Option Bool
  | [], _ => some true
  | _ :: _, [] => some false
  | vchSig :: sigs, vchPubKey :: keys => do
    let fOk ← check vchSig vchPubKey
    let left := if fOk then sigs else vchSig :: sigs
    if left.length > keys.length then some false else checkMultisigLoop check left keys

def EvalContext.check (ctx : EvalContext) (scriptCode : CScript) (vchSig vchPubKey : Bytes) :
    Option Bool :=
  checkStackSig ctx.crypto ctx.nFork vchSig vchPubKey scriptCode ctx.txTo ctx.nIn ctx.flags
    ctx.nHashType

/-- `OP_CHECKSIG`: the signature cannot sign itself and is dropped from the signed script. -/
def checkSigOp (ctx : EvalContext) (fVerify : Bool) (st : ScriptState) : Option ScriptState :=
  match st.stack with
  | vchPubKey :: vchSig :: s => do
    let fSuccess ← ctx.check (findAndDelete (push [] vchSig) st.codeHash) vchSig vchPubKey
    let stack ← pushResult fVerify fSuccess s
    some { st with stack := stack }
  | _ => none

/-- `OP_CHECKMULTISIG`: the number of keys, the keys, the number of signatures, the signatures, and
one more item that is not used. -/
def checkMultisigOp (ctx : EvalContext) (fVerify : Bool) (st : ScriptState) : Option ScriptState :=
  match st.stack with
  | [] => none
  | x :: s => do
    let nKeysCount ← castToNum x
    if nKeysCount < 0 ∨ nKeysCount > 20 then none
    else
      let nKeys := nKeysCount.toNat
      let nOpCount := st.nOpCount + nKeys
      if nOpCount > 201 then none
      else
        match s.drop nKeys with
        | [] => none
        | y :: t => do
          let nSigsCount ← castToNum y
          if nSigsCount < 0 ∨ nSigsCount > nKeysCount ∨ t.length < nSigsCount.toNat then none
          else
            let sigs := t.take nSigsCount.toNat
            let scriptCode :=
              sigs.foldl (fun code vchSig => findAndDelete (push [] vchSig) code) st.codeHash
            let fSuccess ← checkMultisigLoop (ctx.check scriptCode) sigs (s.take nKeys)
            match t.drop nSigsCount.toNat with
            | [] => none
            | dummy :: rest =>
              if ctx.flags.has Flags.nullDummy && !dummy.isEmpty then none
              else do
                let stack ← pushResult fVerify fSuccess rest
                some { st with stack := stack, nOpCount := nOpCount }

def checkLockTimeVerifyOp (ctx : EvalContext) (st : ScriptState) : Option ScriptState :=
  if ctx.flags.has Flags.checkLockTimeVerify then
    match st.stack with
    | [] => none
    | x :: _ => do
      let nLockTime ← castToBigNum x 5
      if nLockTime < 0 then none
      else if checkLockTime ctx.txTo ctx.nIn nLockTime then some st
      else none
  else if ctx.flags.has Flags.discourageUpgradableNops then none
  else some st

/-- The `switch` of `EvalScript`; `pc` is what follows the instruction. -/
def execOp (ctx : EvalContext) (fExec : Bool) (pc : Bytes) (op : Opcode) (st : ScriptState) :
    Option ScriptState :=
  match op with
  | .disabled | .unspendable | .invalid => none
  | .smallInt n => some { st with stack := getVch n :: st.stack }
  | .nop => some st
  | .checkLockTimeVerify => checkLockTimeVerifyOp ctx st
  | .upgradableNop => if ctx.flags.has Flags.discourageUpgradableNops then none else some st
  | .cond fNot =>
    if fExec then
      match st.stack with
      | [] => none
      | x :: s => some { st with stack := s, vfExec := (castToBool x != fNot) :: st.vfExec }
    else some { st with vfExec := false :: st.vfExec }
  | .else_ =>
    match st.vfExec with
    | [] => none
    | f :: v => some { st with vfExec := (!f) :: v }
  | .endIf =>
    match st.vfExec with
    | [] => none
    | _ :: v => some { st with vfExec := v }
  | .toAltStack =>
    match st.stack with
    | [] => none
    | x :: s => some { st with stack := s, altstack := x :: st.altstack }
  | .fromAltStack =>
    match st.altstack with
    | [] => none
    | x :: s => some { st with stack := x :: st.stack, altstack := s }
  | .hash op =>
    match st.stack with
    | [] => none
    | x :: s => some { st with stack := op.eval ctx.crypto x :: s }
  | .codeSeparator => some { st with codeHash := pc }
  | .checkSig fVerify => checkSigOp ctx fVerify st
  | .checkMultisig fVerify => checkMultisigOp ctx fVerify st
  | op => (stackOp op st.stack).map fun stack => { st with stack := stack }

def MAX_SCRIPT_ELEMENT_SIZE : Nat := 520

def op16 : UInt8 := 0x60
def opIf : UInt8 := 0x63
def opEndIf : UInt8 := 0x68

/-- The effect of an instruction that was read, before the size limit on the stacks. -/
def execInstruction (ctx : EvalContext) (opcode : UInt8) (vch pc : Bytes) (st : ScriptState) :
    Option ScriptState :=
  let fExec := st.vfExec.all id
  if fExec ∧ opcode ≤ opPushdata4 then some { st with stack := vch :: st.stack }
  else if fExec ∨ opIf ≤ opcode ∧ opcode ≤ opEndIf then
    execOp ctx fExec pc (Opcode.ofByte opcode) st
  else some st

/-- One round of the loop of `EvalScript`, with what is left of the script. -/
def evalStep (ctx : EvalContext) (pc : Bytes) (st : ScriptState) : Option (Bytes × ScriptState) :=
  match getOp pc with
  | none => none
  | some (opcode, vch, pc) =>
    let nOpCount := if opcode > op16 then st.nOpCount + 1 else st.nOpCount
    if vch.length > MAX_SCRIPT_ELEMENT_SIZE ∨ opcode > op16 ∧ nOpCount > 201 ∨
        Opcode.ofByte opcode = .disabled then none
    else
      match execInstruction ctx opcode vch pc { st with nOpCount := nOpCount } with
      | none => none
      | some st =>
        if st.stack.length + st.altstack.length > 1000 then none else some (pc, st)

/-- The loop of `EvalScript`. Every round reads a byte at least, so the length of the script is fuel
enough. -/
def evalLoop (ctx : EvalContext) : Nat → Bytes → ScriptState → Option ScriptState
  | _, [], st => some st
  | 0, _ :: _, _ => none
  | fuel + 1, b :: pc, st =>
    match evalStep ctx (b :: pc) st with
    | none => none
    | some (pc, st) => evalLoop ctx fuel pc st

theorem evalStep_eq_some {pc' : Bytes} {next : Bytes} (hop : getOp pc = some (opcode, vch, next))
    (h : evalStep ctx pc st = some (pc', st')) : pc' = next ∧ ∃ nOpCount,
      execInstruction ctx opcode vch next { st with nOpCount := nOpCount } = some st' := by
  simp only [evalStep, hop] at h
  split_ifs at h
  all_goals
    split at h
    · cases h
    · next hexec =>
      split_ifs at h
      cases h
      exact ⟨rfl, _, hexec⟩

theorem execInstruction_push (hexec : st.vfExec = []) (hop : opcode ≤ opPushdata4) :
    execInstruction ctx opcode vch pc st = some { st with stack := vch :: st.stack } := by
  simp only [execInstruction, hexec, List.all_nil, true_and, if_pos hop]

theorem execInstruction_op (hexec : st.vfExec = []) (hop : ¬ opcode ≤ opPushdata4) :
    execInstruction ctx opcode vch pc st = execOp ctx true pc (Opcode.ofByte opcode) st := by
  simp only [execInstruction, hexec, List.all_nil, true_and, if_neg hop, true_or, if_true]

theorem evalStep_length {pc' : Bytes}
    (h : evalStep ctx pc st = some (pc', st')) : pc'.length < pc.length := by
  cases hop : getOp pc with
  | none => simp [evalStep, hop] at h
  | some instr =>
    obtain ⟨opcode, vch, next⟩ := instr
    rw [(evalStep_eq_some hop h).1]
    exact length_lt_of_getOp hop

theorem evalLoop_fuel (ctx : EvalContext) : ∀ (fuel₁ fuel₂ : Nat) (pc : Bytes) (st : ScriptState),
    pc.length ≤ fuel₁ → pc.length ≤ fuel₂ → evalLoop ctx fuel₁ pc st = evalLoop ctx fuel₂ pc st := by
  intro fuel₁
  induction fuel₁ with
  | zero =>
    intro fuel₂ pc st h₁ _
    rw [List.eq_nil_of_length_eq_zero (Nat.le_zero.mp h₁), evalLoop, evalLoop]
  | succ fuel₁ ih =>
    intro fuel₂ pc st h₁ h₂
    cases pc with
    | nil => rw [evalLoop, evalLoop]
    | cons b pc =>
      cases fuel₂ with
      | zero => exact absurd h₂ (Nat.not_succ_le_zero _)
      | succ fuel₂ =>
        rw [evalLoop, evalLoop]
        split
        · rfl
        · next pc' st' hstep =>
          have hlt := evalStep_length hstep
          exact ih fuel₂ pc' st' (by omega) (by omega)

theorem evalLoop_eq_some {fuel : Nat} {next : Bytes} (hop : getOp pc = some (opcode, vch, next))
    (h : evalLoop ctx fuel pc st = some st') : ∃ fuel' nOpCount st₁,
      execInstruction ctx opcode vch next { st with nOpCount := nOpCount } = some st₁ ∧
        evalLoop ctx fuel' next st₁ = some st' := by
  cases pc with
  | nil => cases hop
  | cons b pc =>
    cases fuel with
    | zero => cases h
    | succ fuel =>
      rw [evalLoop] at h
      split at h
      · cases h
      · next pc' st₁ hstep =>
        obtain ⟨rfl, nOpCount, hexec⟩ := evalStep_eq_some hop hstep
        exact ⟨fuel, nOpCount, st₁, hexec, h⟩

def evalScript (ctx : EvalContext) (stack : List Bytes) (script : CScript) : Option (List Bytes) :=
  if script.length > 10000 then none
  else
    match evalLoop ctx script.length script ⟨stack, [], [], 0, script⟩ with
    | none => none
    | some st => if st.vfExec.isEmpty then some st.stack else none

end Stealth

import Stealth.Lib.Effect
import Stealth.Script.Interpreter

/-!
`EvalScript` on the vectors of the source. An access outside a vector is an event of its own, and the calls
of `CheckSig` are counted.
-/

namespace Stealth

open Effect CScript

/-- How an evaluation stops before the end of the script: with `return false`, including the exception of
`CastToBigNum`, or because of an access outside a vector. -/
inductive Stop where
  | returnFalse | outOfRange
  deriving DecidableEq, Repr

structure Machine extends ScriptState where
  nChecks : Nat

abbrev Eval := EStateM Stop Machine

namespace Eval

def returnFalseIf (c : Prop) [Decidable c] : Eval Unit :=
  if c then throw .returnFalse else pure ()

def onlyIf (c : Prop) [Decidable c] (x : Eval Unit) : Eval Unit :=
  if c then x else pure ()

/-- A value, or `return false`. -/
def orReturnFalse {α : Type} : Option α → Eval α
  | none => throw .returnFalse
  | some a => pure a

def inRange {α : Type} : Option α → Eval α
  | none => throw .outOfRange
  | some a => pure a

/-- `if (stack.size() < n) return false`. -/
def require (n : Nat) : Eval Unit := do
  let m ← get
  returnFalseIf (m.stack.length < n)

/-- `stacktop(-k)`. -/
def stacktop : Nat → Eval Bytes
  | 0 => throw .outOfRange
  | k + 1 => do
    let m ← get
    inRange m.stack[k]?

def pushBack (vch : Bytes) : Eval Unit := modify fun m => { m with stack := vch :: m.stack }

def popstack : Eval Unit := do
  let m ← get
  match m.stack with
  | [] => throw .outOfRange
  | _ :: s => set { m with stack := s }

/-- `swap(stacktop(-j), stacktop(-k))`. -/
def swapTops (j k : Nat) : Eval Unit := do
  let x ← stacktop j
  let y ← stacktop k
  modify fun m => { m with stack := (m.stack.set (j - 1) y).set (k - 1) x }

/-- `stack.erase(stack.end() - k, stack.end() - k + n)`. -/
def eraseTops (k n : Nat) : Eval Unit := do
  let m ← get
  if n ≤ k ∧ k ≤ m.stack.length then set { m with stack := m.stack.take (k - n) ++ m.stack.drop k }
  else throw .outOfRange

/-- `stack.insert(stack.end() - k, vch)`. -/
def insertTop (k : Nat) (vch : Bytes) : Eval Unit := do
  let m ← get
  if k ≤ m.stack.length then set { m with stack := m.stack.take k ++ vch :: m.stack.drop k }
  else throw .outOfRange

/-- What a verifying opcode does with the result it has pushed. -/
def verifyResult (fVerify f : Bool) : Eval Unit :=
  onlyIf fVerify do
    returnFalseIf (f = false)
    popstack

/-- `CastToBigNum(stacktop(-k))`. -/
def stackNum (k : Nat) : Eval Int := do
  let vch ← stacktop k
  orReturnFalse (castToNum vch)

def stackOp : Opcode → Eval Unit
  | .drop2 => do
    require 2
    popstack
    popstack
  | .dup2 => do
    require 2
    let vch1 ← stacktop 2
    let vch2 ← stacktop 1
    pushBack vch1
    pushBack vch2
  | .dup3 => do
    require 3
    let vch1 ← stacktop 3
    let vch2 ← stacktop 2
    let vch3 ← stacktop 1
    pushBack vch1
    pushBack vch2
    pushBack vch3
  | .over2 => do
    require 4
    let vch1 ← stacktop 4
    let vch2 ← stacktop 3
    pushBack vch1
    pushBack vch2
  | .rot2 => do
    require 6
    let vch1 ← stacktop 6
    let vch2 ← stacktop 5
    eraseTops 6 2
    pushBack vch1
    pushBack vch2
  | .swap2 => do
    require 4
    swapTops 4 2
    swapTops 3 1
  | .ifDup => do
    require 1
    let vch ← stacktop 1
    onlyIf (castToBool vch) (pushBack vch)
  | .depth => do
    let m ← get
    pushBack (getVch m.stack.length)
  | .drop => do
    require 1
    popstack
  | .dup => do
    require 1
    let vch ← stacktop 1
    pushBack vch
  | .nip => do
    require 2
    eraseTops 2 1
  | .over => do
    require 2
    let vch ← stacktop 2
    pushBack vch
  | .pick fRoll => do
    require 2
    let n ← stackNum 1
    popstack
    let m ← get
    returnFalseIf (n < 0 ∨ n ≥ m.stack.length)
    let vch ← stacktop (n.toNat + 1)
    onlyIf fRoll (eraseTops (n.toNat + 1) 1)
    pushBack vch
  | .rot => do
    require 3
    swapTops 3 2
    swapTops 2 1
  | .swap => do
    require 2
    swapTops 2 1
  | .tuck => do
    require 2
    let vch ← stacktop 1
    insertTop 2 vch
  | .size => do
    require 1
    let vch ← stacktop 1
    pushBack (getVch vch.length)
  | .equal fVerify => do
    require 2
    let vch1 ← stacktop 2
    let vch2 ← stacktop 1
    popstack
    popstack
    pushBack (vchBool (vch1 == vch2))
    verifyResult fVerify (vch1 == vch2)
  | .unary op => do
    require 1
    let bn ← stackNum 1
    popstack
    pushBack (getVch (op.eval bn))
  | .binary op => do
    require 2
    let bn1 ← stackNum 2
    let bn2 ← stackNum 1
    popstack
    popstack
    pushBack (getVch (op.eval bn1 bn2))
    onlyIf (op = .numEqualVerify) do
      let vch ← stacktop 1
      returnFalseIf (castToBool vch = false)
      popstack
  | .within => do
    require 3
    let bn1 ← stackNum 3
    let bn2 ← stackNum 2
    let bn3 ← stackNum 1
    popstack
    popstack
    popstack
    pushBack (vchBool (decide (bn2 ≤ bn1) && decide (bn1 < bn3)))
  | .verify => do
    require 1
    let vch ← stacktop 1
    returnFalseIf (castToBool vch = false)
    popstack
  | .claim => do
    let m ← get
    returnFalseIf (m.stack.length ≠ 3)
    let vch ← stacktop 1
    returnFalseIf (vch.length ≠ 41)
    popstack
  | _ => throw .returnFalse

variable (ctx : EvalContext)

/-- The check of one signature against one key; every call of `CheckSig` counts. -/
def checkStackSig (scriptCode : CScript) (vchSig vchPubKey : Bytes) : Eval Bool := do
  let fEncoded := checkSignatureEncoding ctx.nFork vchSig ctx.flags && checkPubKeyEncoding vchPubKey
  returnFalseIf (ctx.flags.has Flags.strictEnc && !fEncoded)
  onlyIf fEncoded (modify fun m => { m with nChecks := m.nChecks + 1 })
  pure (fEncoded && checkSig ctx.crypto vchSig vchPubKey scriptCode ctx.txTo ctx.nIn ctx.nHashType)

def checkSigOp (fVerify : Bool) : Eval Unit := do
  require 2
  let vchSig ← stacktop 2
  let vchPubKey ← stacktop 1
  let m ← get
  let fSuccess ← checkStackSig ctx (findAndDelete (push [] vchSig) m.codeHash) vchSig vchPubKey
  popstack
  popstack
  pushBack (vchBool fSuccess)
  verifyResult fVerify fSuccess

/-- The loop that drops the signatures from the signed script. -/
def deleteSigs : Nat → Nat → CScript → Eval CScript
  | _, 0, scriptCode => pure scriptCode
  | isig, nSigs + 1, scriptCode => do
    let vchSig ← stacktop isig
    deleteSigs (isig + 1) nSigs (findAndDelete (push [] vchSig) scriptCode)

/-- The loop of `OP_CHECKMULTISIG`. A round takes a key, and a signature if it fits. -/
def checkMultisigLoop (ctx : EvalContext) (scriptCode : CScript) : Nat → Nat → Nat → Nat → Eval Bool
  | _, _, _, 0 => pure true
  | 0, isig, ikey, _ + 1 => do
    let vchSig ← stacktop isig
    let vchPubKey ← stacktop ikey
    let _ ← checkStackSig ctx scriptCode vchSig vchPubKey
    pure false
  | nKeys + 1, isig, ikey, nSigs + 1 => do
    let vchSig ← stacktop isig
    let vchPubKey ← stacktop ikey
    let fOk ← checkStackSig ctx scriptCode vchSig vchPubKey
    let nSigsLeft := if fOk then nSigs else nSigs + 1
    if nSigsLeft > nKeys then pure false
    else checkMultisigLoop ctx scriptCode nKeys (if fOk then isig + 1 else isig) (ikey + 1) nSigsLeft

def popTimes : Nat → Eval Unit
  | 0 => pure ()
  | n + 1 => do
    popstack
    popTimes n

def checkMultisigOp (fVerify : Bool) : Eval Unit := do
  require 1
  let nKeysCount ← stackNum 1
  returnFalseIf (nKeysCount < 0 ∨ nKeysCount > 20)
  modify fun m => { m with nOpCount := m.nOpCount + nKeysCount.toNat }
  let m ← get
  returnFalseIf (m.nOpCount > 201)
  let i := 2 + nKeysCount.toNat
  require i
  let nSigsCount ← stackNum i
  returnFalseIf (nSigsCount < 0 ∨ nSigsCount > nKeysCount)
  let isig := i + 1
  let i := isig + nSigsCount.toNat
  require i
  let scriptCode ← deleteSigs isig nSigsCount.toNat m.codeHash
  let fSuccess ← checkMultisigLoop ctx scriptCode nKeysCount.toNat isig 2 nSigsCount.toNat
  popTimes (i - 1)
  require 1
  onlyIf (ctx.flags.has Flags.nullDummy) do
    let dummy ← stacktop 1
    returnFalseIf (dummy.length ≠ 0)
  popstack
  pushBack (vchBool fSuccess)
  verifyResult fVerify fSuccess

def checkLockTimeVerifyOp : Eval Unit :=
  if ctx.flags.has Flags.checkLockTimeVerify then do
    require 1
    let vch ← stacktop 1
    let nLockTime ← orReturnFalse (castToBigNum vch 5)
    returnFalseIf (nLockTime < 0)
    returnFalseIf (checkLockTime ctx.txTo ctx.nIn nLockTime = false)
  else returnFalseIf (ctx.flags.has Flags.discourageUpgradableNops)

def condOp (fExec fNot : Bool) : Eval Unit :=
  if fExec then do
    require 1
    let vch ← stacktop 1
    popstack
    modify fun m => { m with vfExec := (castToBool vch != fNot) :: m.vfExec }
  else modify fun m => { m with vfExec := false :: m.vfExec }

/-- `vfExec.back()` and what is below it. -/
def innermost : Eval (Bool × List Bool) := do
  let m ← get
  returnFalseIf (m.vfExec.isEmpty)
  match m.vfExec with
  | [] => throw .outOfRange
  | f :: v => pure (f, v)

def toAltStackOp : Eval Unit := do
  require 1
  let vch ← stacktop 1
  modify fun m => { m with altstack := vch :: m.altstack }
  popstack

def fromAltStackOp : Eval Unit := do
  let m ← get
  returnFalseIf (m.altstack.length < 1)
  match m.altstack with
  | [] => throw .outOfRange
  | vch :: s => do
    pushBack vch
    modify fun m => { m with altstack := s }

def hashOp (op : HashOp) : Eval Unit := do
  require 1
  let vch ← stacktop 1
  popstack
  pushBack (op.eval ctx.crypto vch)

def execOp (fExec : Bool) (pc : Bytes) (op : Opcode) : Eval Unit :=
  match op with
  | .disabled | .unspendable | .invalid => throw .returnFalse
  | .smallInt n => pushBack (getVch n)
  | .nop => pure ()
  | .checkLockTimeVerify => checkLockTimeVerifyOp ctx
  | .upgradableNop => returnFalseIf (ctx.flags.has Flags.discourageUpgradableNops)
  | .cond fNot => condOp fExec fNot
  | .else_ => do
    let (f, v) ← innermost
    modify fun m => { m with vfExec := (!f) :: v }
  | .endIf => do
    let (_, v) ← innermost
    modify fun m => { m with vfExec := v }
  | .toAltStack => toAltStackOp
  | .fromAltStack => fromAltStackOp
  | .hash op => hashOp ctx op
  | .codeSeparator => modify fun m => { m with codeHash := pc }
  | .checkSig fVerify => checkSigOp ctx fVerify
  | .checkMultisig fVerify => checkMultisigOp ctx fVerify
  | op => stackOp op

def fetch (pc : Bytes) : Eval (UInt8 × Bytes × Bytes) := do
  let (opcode, vch, next) ← orReturnFalse (getOp pc)
  returnFalseIf (vch.length > MAX_SCRIPT_ELEMENT_SIZE)
  onlyIf (opcode > op16) do
    modify fun m => { m with nOpCount := m.nOpCount + 1 }
    let m ← get
    returnFalseIf (m.nOpCount > 201)
  returnFalseIf (Opcode.ofByte opcode = .disabled)
  pure (opcode, vch, next)

def execInstruction (opcode : UInt8) (vch pc : Bytes) : Eval Unit := do
  let m ← get
  let fExec := m.vfExec.all id
  if fExec ∧ opcode ≤ opPushdata4 then pushBack vch
  else if fExec ∨ opIf ≤ opcode ∧ opcode ≤ opEndIf then execOp ctx fExec pc (Opcode.ofByte opcode)
  else pure ()

def evalStep (pc : Bytes) : Eval Bytes := do
  let (opcode, vch, next) ← fetch pc
  execInstruction ctx opcode vch next
  let m ← get
  returnFalseIf (m.stack.length + m.altstack.length > 1000)
  pure next

def evalLoop (ctx : EvalContext) : Nat → Bytes → Eval Unit
  | _, [] => pure ()
  | 0, _ :: _ => throw .returnFalse
  | fuel + 1, b :: pc => do
    let pc ← evalStep ctx (b :: pc)
    evalLoop ctx fuel pc

def evalScript (script : CScript) : Eval Unit := do
  returnFalseIf (script.length > 10000)
  evalLoop ctx script.length script
  let m ← get
  returnFalseIf (m.vfExec.isEmpty = false)

end Eval

def Machine.start (stack : List Bytes) (script : CScript) : Machine := ⟨⟨stack, [], [], 0, script⟩, 0⟩

end Stealth

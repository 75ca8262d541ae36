import Stealth.Script.SigOps

/-! The limits that hold after every instruction: 1000 elements of 520 bytes and 201 opcodes. -/

namespace Stealth

open Effect CScript Encoding

variable {vch pc : Bytes} {ctx : EvalContext} {opcode : UInt8} {m : Machine} {st st' : ScriptState}
  {opcodes : List UInt8} {stack : List Bytes}

def SmallElements (s : List Bytes) : Prop := ∀ x ∈ s, x.length ≤ MAX_SCRIPT_ELEMENT_SIZE

theorem smallElements_cons {x : Bytes} {s : List Bytes} :
    SmallElements (x :: s) ↔ x.length ≤ MAX_SCRIPT_ELEMENT_SIZE ∧ SmallElements s := List.forall_mem_cons

/-- The hash functions return digests of their sizes. -/
structure Crypto.Sized (c : Crypto) : Prop where
  ripemd160 : ∀ vch, (c.ripemd160 vch).length = 20
  sha1 : ∀ vch, (c.sha1 vch).length = 20
  sha256 : ∀ vch, (c.sha256 vch).length = 32

theorem length_hashOp {c : Crypto} (hc : c.Sized) (op : HashOp) (vch : Bytes) :
    (op.eval c vch).length ≤ MAX_SCRIPT_ELEMENT_SIZE := by
  have hmax : MAX_SCRIPT_ELEMENT_SIZE = 520 := rfl
  cases op with
  | ripemd160 => rw [HashOp.eval, hc.ripemd160]; omega
  | sha1 => rw [HashOp.eval, hc.sha1]; omega
  | sha256 => rw [HashOp.eval, hc.sha256]; omega
  | hash160 => rw [HashOp.eval, Crypto.hash160, hc.ripemd160]; omega
  | hash256 => rw [HashOp.eval, serializeUint256, leBytes_length]; omega

theorem length_vchBool (f : Bool) : (vchBool f).length ≤ MAX_SCRIPT_ELEMENT_SIZE := by
  cases f <;> decide

variable {m' : Machine} {script : CScript} {fVerify : Bool} {bn : Int}

theorem length_getVch (h : bn.natAbs < 2 ^ 64) : (getVch bn).length ≤ MAX_SCRIPT_ELEMENT_SIZE := by
  have hmax : MAX_SCRIPT_ELEMENT_SIZE = 520 := rfl
  rw [getVch]
  split
  · exact Nat.zero_le _
  · next hne =>
    have hlog : bn.natAbs.log2 < 64 := (Nat.log2_lt hne).2 h
    split
    · rw [leBytes_length]
      omega
    · rw [List.length_append, leBytes_length, List.length_singleton]
      omega

theorem natAbs_castToNum (h : castToNum vch = some bn) : bn.natAbs < 2 ^ 32 := by
  rw [castToNum, castToBigNum] at h
  split at h
  · cases h
  · next hlen =>
    have hvalue := leValue_lt vch
    have hpow : 256 ^ vch.length ≤ 2 ^ 32 := by
      calc 256 ^ vch.length ≤ 256 ^ 4 := Nat.pow_le_pow_right (by decide) (Nat.not_lt.1 hlen)
        _ = 2 ^ 32 := by decide
    cases h
    rw [setVch]
    split
    · decide
    · have hle := Nat.sub_le (leValue vch) (2 ^ (8 * vch.length - 1))
      split <;> omega

theorem natAbs_bnBool (f : Bool) : (bnBool f).natAbs ≤ 1 := by
  cases f <;> decide

theorem natAbs_unaryOp (op : UnaryOp) (bn : Int) : (op.eval bn).natAbs ≤ bn.natAbs + 1 := by
  cases op with
  | add1 | sub1 | negate => rw [UnaryOp.eval]; omega
  | abs => rw [UnaryOp.eval]; split <;> omega
  | not | notEqual0 => exact Nat.le_add_left_of_le (natAbs_bnBool _)

theorem natAbs_binaryOp (op : BinaryOp) (bn1 bn2 : Int) :
    (op.eval bn1 bn2).natAbs ≤ bn1.natAbs + bn2.natAbs + 1 := by
  cases op with
  | add | sub => rw [BinaryOp.eval]; omega
  | min | max => rw [BinaryOp.eval]; split <;> omega
  | _ => exact Nat.le_add_left_of_le (natAbs_bnBool _)

/-- Every element of the two stacks is small. -/
structure SmallStacks (m : Machine) : Prop where
  stack : SmallElements m.stack
  altstack : SmallElements m.altstack

abbrev PushesSmall {α : Type} (x : Eval α) : Prop := Keeps SmallStacks x fun _ => True

namespace Eval

theorem small_returnFalseIf {c : Prop} [Decidable c] : PushesSmall (returnFalseIf c) :=
  keeps_ite (fun _ => keeps_throw) fun _ => keeps_pure trivial

theorem small_onlyIf {c : Prop} [Decidable c] {x : Eval Unit} (hx : PushesSmall x) :
    PushesSmall (onlyIf c x) :=
  keeps_ite (fun _ => hx) fun _ => keeps_pure trivial

theorem small_orReturnFalse {α : Type} (x : Option α) : Keeps SmallStacks (orReturnFalse x) fun a => x = some a := by
  cases x with
  | none => exact keeps_throw
  | some a => exact keeps_pure rfl

theorem small_require (n : Nat) : PushesSmall (require n) :=
  keeps_get.seq <| small_returnFalseIf

theorem small_stacktop (k : Nat) : Keeps SmallStacks (stacktop k) fun vch => vch.length ≤ MAX_SCRIPT_ELEMENT_SIZE := by
  cases k with
  | zero => exact keeps_throw
  | succ k =>
    refine keeps_get.bind fun m hm => ?_
    cases hx : m.stack[k]? with
    | none => exact keeps_throw
    | some x => exact keeps_pure (hm.stack x (List.mem_of_getElem? hx))

theorem small_pushBack (h : vch.length ≤ MAX_SCRIPT_ELEMENT_SIZE) :
    PushesSmall (pushBack vch) :=
  keeps_modify fun _ hm => ⟨smallElements_cons.2 ⟨h, hm.stack⟩, hm.altstack⟩

theorem small_popstack : PushesSmall popstack := by
  intro m hm
  rw [ends_popstack]
  refine ⟨fun x s hs => ⟨⟨?_, hm.altstack⟩, trivial⟩, fun _ => hm⟩
  have hstack := hm.stack
  rw [hs] at hstack
  exact (smallElements_cons.1 hstack).2

theorem small_swapTops (j k : Nat) : PushesSmall (swapTops j k) := by
  refine (small_stacktop j).bind fun x hx => (small_stacktop k).bind fun y hy => keeps_modify fun m hm => ?_
  refine ⟨fun z hz => ?_, hm.altstack⟩
  rcases List.mem_or_eq_of_mem_set hz with hz | rfl
  · rcases List.mem_or_eq_of_mem_set hz with hz | rfl
    · exact hm.stack z hz
    · exact hy
  · exact hx

theorem small_eraseTops (k n : Nat) : PushesSmall (eraseTops k n) := by
  intro m hm
  rw [ends_eraseTops]
  refine ⟨fun _ => ⟨⟨fun x hx => ?_, hm.altstack⟩, trivial⟩, fun _ => hm⟩
  rcases List.mem_append.1 hx with hx | hx
  · exact hm.stack x (List.mem_of_mem_take hx)
  · exact hm.stack x (List.mem_of_mem_drop hx)

theorem small_insertTop (k : Nat) (h : vch.length ≤ MAX_SCRIPT_ELEMENT_SIZE) :
    PushesSmall (insertTop k vch) := by
  intro m hm
  rw [ends_insertTop]
  refine ⟨fun _ => ⟨⟨fun x hx => ?_, hm.altstack⟩, trivial⟩, fun _ => hm⟩
  rcases List.mem_append.1 hx with hx | hx
  · exact hm.stack x (List.mem_of_mem_take hx)
  · rcases List.mem_cons.1 hx with rfl | hx
    · exact h
    · exact hm.stack x (List.mem_of_mem_drop hx)

theorem small_verifyResult (fVerify f : Bool) : PushesSmall (verifyResult fVerify f) :=
  small_onlyIf (small_returnFalseIf.seq <| small_popstack)

theorem small_stackNum (k : Nat) : Keeps SmallStacks (stackNum k) fun bn => bn.natAbs < 2 ^ 32 :=
  (small_stacktop k).bind fun _ _ m hm =>
    (small_orReturnFalse _ m hm).mono (fun _ _ h => ⟨h.1, natAbs_castToNum h.2⟩) fun _ _ h => h

theorem small_stackOp (op : Opcode) (hop : op ≠ .depth) : PushesSmall (stackOp op) := by
  cases op with
  | drop2 => exact (small_require 2).seq <| small_popstack.seq <| small_popstack
  | dup2 =>
    exact (small_require 2).seq <| (small_stacktop 2).bind fun _ h1 => (small_stacktop 1).bind
      fun _ h2 => (small_pushBack h1).seq <| small_pushBack h2
  | dup3 =>
    exact (small_require 3).seq <| (small_stacktop 3).bind fun _ h1 => (small_stacktop 2).bind
      fun _ h2 => (small_stacktop 1).bind fun _ h3 => (small_pushBack h1).seq <|
        (small_pushBack h2).seq <| small_pushBack h3
  | over2 =>
    exact (small_require 4).seq <| (small_stacktop 4).bind fun _ h1 => (small_stacktop 3).bind
      fun _ h2 => (small_pushBack h1).seq <| small_pushBack h2
  | rot2 =>
    exact (small_require 6).seq <| (small_stacktop 6).bind fun _ h1 => (small_stacktop 5).bind
      fun _ h2 => (small_eraseTops 6 2).seq <| (small_pushBack h1).seq <| small_pushBack h2
  | swap2 => exact (small_require 4).seq <| (small_swapTops 4 2).seq <| small_swapTops 3 1
  | ifDup =>
    exact (small_require 1).seq <| (small_stacktop 1).bind fun _ h => small_onlyIf (small_pushBack h)
  | depth => exact absurd rfl hop
  | drop => exact (small_require 1).seq <| small_popstack
  | dup => exact (small_require 1).seq <| (small_stacktop 1).bind fun _ h => small_pushBack h
  | nip => exact (small_require 2).seq <| small_eraseTops 2 1
  | «over» => exact (small_require 2).seq <| (small_stacktop 2).bind fun _ h => small_pushBack h
  | pick fRoll =>
    exact (small_require 2).seq <| (small_stackNum 1).bind fun n _ => small_popstack.seq <|
      keeps_get.seq <| small_returnFalseIf.seq <| (small_stacktop _).bind fun _ h =>
        (small_onlyIf (small_eraseTops _ 1)).seq <| small_pushBack h
  | rot => exact (small_require 3).seq <| (small_swapTops 3 2).seq <| small_swapTops 2 1
  | swap => exact (small_require 2).seq <| small_swapTops 2 1
  | tuck => exact (small_require 2).seq <| (small_stacktop 1).bind fun _ h => small_insertTop 2 h
  | size =>
    refine (small_require 1).seq <| (small_stacktop 1).bind fun vch h => small_pushBack ?_
    have hmax : MAX_SCRIPT_ELEMENT_SIZE = 520 := rfl
    exact length_getVch (by omega)
  | equal fVerify =>
    exact (small_require 2).seq <| (small_stacktop 2).seq <| (small_stacktop 1).seq <|
      small_popstack.seq <| small_popstack.seq <|
        (small_pushBack (length_vchBool _)).seq <| small_verifyResult fVerify _
  | unary op =>
    refine (small_require 1).seq <| (small_stackNum 1).bind fun bn h => small_popstack.seq <|
      small_pushBack ?_
    have heval := natAbs_unaryOp op bn
    exact length_getVch (by omega)
  | binary op =>
    refine (small_require 2).seq <| (small_stackNum 2).bind fun bn1 h1 => (small_stackNum 1).bind
      fun bn2 h2 => small_popstack.seq <| small_popstack.seq <|
        (small_pushBack ?_).seq <| small_onlyIf ((small_stacktop 1).seq <|
          small_returnFalseIf.seq <| small_popstack)
    have heval := natAbs_binaryOp op bn1 bn2
    exact length_getVch (by omega)
  | within =>
    exact (small_require 3).seq <| (small_stackNum 3).seq <| (small_stackNum 2).seq <|
      (small_stackNum 1).seq <| small_popstack.seq <| small_popstack.seq <|
        small_popstack.seq <| small_pushBack (length_vchBool _)
  | verify =>
    exact (small_require 1).seq <| (small_stacktop 1).seq <| small_returnFalseIf.seq <| small_popstack
  | claim =>
    exact keeps_get.seq <| small_returnFalseIf.seq <| (small_stacktop 1).seq <|
      small_returnFalseIf.seq <| small_popstack
  | _ => exact keeps_throw

theorem small_checkStackSig (ctx : EvalContext) (scriptCode : CScript) (vchSig vchPubKey : Bytes) :
    PushesSmall (checkStackSig ctx scriptCode vchSig vchPubKey) := by
  refine small_returnFalseIf.seq <| (small_onlyIf (keeps_modify ?_)).seq <| keeps_pure trivial
  exact fun _ hm => ⟨hm.stack, hm.altstack⟩

theorem small_checkSigOp (ctx : EvalContext) (fVerify : Bool) : PushesSmall (checkSigOp ctx fVerify) :=
  (small_require 2).seq <| (small_stacktop 2).seq <| (small_stacktop 1).seq <|
    keeps_get.seq <| (small_checkStackSig ctx _ _ _).seq <| small_popstack.seq <|
      small_popstack.seq <| (small_pushBack (length_vchBool _)).seq <| small_verifyResult fVerify _

theorem small_deleteSigs : ∀ (nSigs isig : Nat) (scriptCode : CScript),
    PushesSmall (deleteSigs isig nSigs scriptCode)
  | 0, _, _ => keeps_pure trivial
  | nSigs + 1, isig, _ => (small_stacktop isig).seq <| small_deleteSigs nSigs (isig + 1) _

theorem small_checkMultisigLoop (ctx : EvalContext) (scriptCode : CScript) (nKeys : Nat) :
    ∀ isig ikey nSigs, PushesSmall (checkMultisigLoop ctx scriptCode nKeys isig ikey nSigs) := by
  induction nKeys with
  | zero =>
    intro isig ikey nSigs
    cases nSigs with
    | zero => exact keeps_pure trivial
    | succ nSigs =>
      exact (small_stacktop isig).seq <| (small_stacktop ikey).seq <|
        (small_checkStackSig ctx scriptCode _ _).seq <| keeps_pure trivial
  | succ nKeys ih =>
    intro isig ikey nSigs
    cases nSigs with
    | zero => exact keeps_pure trivial
    | succ nSigs =>
      exact (small_stacktop isig).seq <| (small_stacktop ikey).seq <|
        (small_checkStackSig ctx scriptCode _ _).seq <|
          keeps_ite (fun _ => keeps_pure trivial) fun _ => ih _ _ _

theorem small_popTimes : ∀ n, PushesSmall (popTimes n)
  | 0 => keeps_pure trivial
  | n + 1 => small_popstack.seq <| small_popTimes n

theorem small_checkMultisigOp (ctx : EvalContext) (fVerify : Bool) :
    PushesSmall (checkMultisigOp ctx fVerify) := by
  refine (small_require 1).seq <| (small_stackNum 1).seq <| small_returnFalseIf.seq <|
    (keeps_modify fun _ hm => ?_).seq <| ?_
  · exact ⟨hm.stack, hm.altstack⟩
  refine keeps_get.seq <| small_returnFalseIf.seq <| (small_require _).seq <|
    (small_stackNum _).seq <| small_returnFalseIf.seq <| (small_require _).seq <| ?_
  refine (small_deleteSigs _ _ _).seq <| (small_checkMultisigLoop ctx _ _ _ _ _).seq <|
    (small_popTimes _).seq <| (small_require 1).seq <| ?_
  refine (small_onlyIf ((small_stacktop 1).seq <| small_returnFalseIf)).seq <| ?_
  exact small_popstack.seq <| (small_pushBack (length_vchBool _)).seq <|
    small_verifyResult fVerify _

theorem small_checkLockTimeVerifyOp (ctx : EvalContext) : PushesSmall (checkLockTimeVerifyOp ctx) := by
  refine keeps_ite (fun _ => ?_) fun _ => small_returnFalseIf
  exact (small_require 1).seq <| (small_stacktop 1).seq <| (small_orReturnFalse _).seq <|
    small_returnFalseIf.seq <| small_returnFalseIf

theorem small_condOp (fExec fNot : Bool) : PushesSmall (condOp fExec fNot) := by
  refine keeps_ite (fun _ => ?_) fun _ => keeps_modify fun _ hm => ⟨hm.stack, hm.altstack⟩
  exact (small_require 1).seq <| (small_stacktop 1).seq <| small_popstack.seq <|
    keeps_modify fun _ hm => ⟨hm.stack, hm.altstack⟩

theorem small_innermost : PushesSmall innermost := by
  refine keeps_get.bind fun m _ => small_returnFalseIf.seq <| ?_
  cases m.vfExec with
  | nil => exact keeps_throw
  | cons f v => exact keeps_pure trivial

theorem small_toAltStackOp : PushesSmall toAltStackOp :=
  (small_require 1).seq <| (small_stacktop 1).bind fun _ h =>
    (keeps_modify fun _ hm => ⟨hm.stack, smallElements_cons.2 ⟨h, hm.altstack⟩⟩).seq <| small_popstack

theorem small_fromAltStackOp : PushesSmall fromAltStackOp := by
  refine keeps_get.bind fun m hm => small_returnFalseIf.bind fun _ _ => ?_
  have halt := hm.altstack
  revert halt
  cases m.altstack with
  | nil => exact fun _ => keeps_throw
  | cons vch s =>
    intro halt
    obtain ⟨hvch, hs⟩ := smallElements_cons.1 halt
    exact (small_pushBack hvch).bind fun _ _ => keeps_modify fun _ hm => ⟨hm.stack, hs⟩

theorem small_hashOp (hc : ctx.crypto.Sized) (op : HashOp) : PushesSmall (hashOp ctx op) :=
  (small_require 1).seq <| (small_stacktop 1).seq <| small_popstack.seq <|
    small_pushBack (length_hashOp hc op _)

theorem small_execOp (hc : ctx.crypto.Sized) (fExec : Bool) (pc : Bytes) {op : Opcode}
    (hint : ∀ n, op = .smallInt n → n.natAbs < 2 ^ 64) (hdepth : op ≠ .depth) :
    PushesSmall (execOp ctx fExec pc op) := by
  cases op with
  | disabled | unspendable | invalid => exact keeps_throw
  | smallInt n => exact small_pushBack (length_getVch (hint n rfl))
  | nop => exact keeps_pure trivial
  | checkLockTimeVerify => exact small_checkLockTimeVerifyOp ctx
  | upgradableNop => exact small_returnFalseIf
  | cond fNot => exact small_condOp fExec fNot
  | else_ | endIf => exact small_innermost.seq <| keeps_modify fun _ hm => ⟨hm.stack, hm.altstack⟩
  | toAltStack => exact small_toAltStackOp
  | fromAltStack => exact small_fromAltStackOp
  | hash op => exact small_hashOp hc op
  | codeSeparator => exact keeps_modify fun _ hm => ⟨hm.stack, hm.altstack⟩
  | checkSig fVerify => exact small_checkSigOp ctx fVerify
  | checkMultisig fVerify => exact small_checkMultisigOp ctx fVerify
  | _ => exact small_stackOp _ hdepth

theorem natAbs_smallInt {n : Int} (h : Opcode.ofByte opcode = .smallInt n) : n.natAbs < 2 ^ 64 := by
  have hall : ∀ b < 256, (match Opcode.ofByte (UInt8.ofNat b) with
      | .smallInt n => decide (n.natAbs < 2 ^ 64)
      | _ => true) = true := by decide +kernel
  have hopcode := hall opcode.toNat opcode.toNat_lt
  rw [UInt8.ofNat_toNat, h] at hopcode
  exact of_decide_eq_true hopcode

/-- An instruction reads within the stack and leaves small elements, also when it stops the evaluation. -/
theorem ends_execInstruction_small (hc : ctx.crypto.Sized) (opcode : UInt8)
    (pc : Bytes) (hvch : vch.length ≤ MAX_SCRIPT_ELEMENT_SIZE) (hm : SmallStacks m)
    (hlen : m.stack.length < 2 ^ 64) : Ends (execInstruction ctx opcode vch pc) m (fun _ => SmallStacks)
      fun e m' => e = .returnFalse ∧ SmallStacks m' := by
  have hsmall : Ends (execInstruction ctx opcode vch pc) m (fun _ => SmallStacks) fun _ => SmallStacks := by
    rw [execInstruction, ends_bind, ends_get, ends_ite]
    refine ⟨fun _ => ?_, fun _ => ?_⟩
    · exact (small_pushBack hvch m hm).mono (fun _ _ h => h.1) fun _ _ h => h
    · rw [ends_ite]
      refine ⟨fun _ => ?_, fun _ => hm⟩
      by_cases hop : Opcode.ofByte opcode = .depth
      · rw [hop]
        exact ⟨smallElements_cons.2 ⟨length_getVch (by omega), hm.stack⟩, hm.altstack⟩
      · refine (small_execOp hc _ pc (fun n hn => natAbs_smallInt hn) hop m hm).mono (fun _ _ h => h.1) ?_
        exact fun _ _ h => h
  have hrange := agrees_execInstruction ctx opcode vch pc m
  exact (hsmall.and hrange).mono (fun _ _ h => h.1) fun _ _ h => ⟨h.2.1, h.1⟩

end Eval

theorem nOpCount_checkMultisigOp (h : checkMultisigOp ctx fVerify st = some st') :
    st.nOpCount ≤ st'.nOpCount ∧ st'.nOpCount ≤ 201 := by
  rw [checkMultisigOp] at h
  split at h
  · cases h
  obtain ⟨nKeysCount, -, h⟩ := Option.bind_eq_some_iff.1 h
  dsimp only at h
  split at h
  · cases h
  split at h
  · cases h
  next hcount =>
    split at h
    · cases h
    obtain ⟨nSigsCount, -, h⟩ := Option.bind_eq_some_iff.1 h
    split at h
    · cases h
    obtain ⟨fSuccess, -, h⟩ := Option.bind_eq_some_iff.1 h
    split at h
    · cases h
    split at h
    · cases h
    obtain ⟨stack, -, h⟩ := Option.bind_eq_some_iff.1 h
    cases h
    exact ⟨Nat.le_add_right _ _, Nat.not_lt.1 hcount⟩

theorem nOpCount_checkSigOp (h : checkSigOp ctx fVerify st = some st') :
    st'.nOpCount = st.nOpCount := by
  rw [checkSigOp] at h
  split at h
  · obtain ⟨fSuccess, -, h⟩ := Option.bind_eq_some_iff.1 h
    obtain ⟨stack, -, h⟩ := Option.bind_eq_some_iff.1 h
    cases h
    rfl
  · cases h

theorem eq_of_checkLockTimeVerifyOp (h : checkLockTimeVerifyOp ctx st = some st') : st' = st := by
  rw [checkLockTimeVerifyOp] at h
  split at h
  · split at h
    · cases h
    obtain ⟨nLockTime, -, h⟩ := Option.bind_eq_some_iff.1 h
    split_ifs at h
    cases h
    rfl
  · split_ifs at h
    cases h
    rfl

/-- An opcode counts the keys of `OP_CHECKMULTISIG` within the limit and nothing else. -/
theorem nOpCount_execOp {fExec : Bool} {op : Opcode}
    (h : execOp ctx fExec pc op st = some st') (hle : st.nOpCount ≤ 201) :
    st.nOpCount ≤ st'.nOpCount ∧ st'.nOpCount ≤ 201 := by
  revert h
  fun_cases execOp ctx fExec pc op st
  all_goals intro h
  case case6 => rw [eq_of_checkLockTimeVerifyOp h]; exact ⟨le_rfl, hle⟩
  case case23 => rw [nOpCount_checkSigOp h]; exact ⟨le_rfl, hle⟩
  case case24 => exact nOpCount_checkMultisigOp h
  case case25 =>
    obtain ⟨stack, -, rfl⟩ := Option.map_eq_some_iff.1 h
    exact ⟨le_rfl, hle⟩
  all_goals first
    | cases h; done
    | cases h; exact ⟨le_rfl, hle⟩

theorem nOpCount_execInstruction
    (h : execInstruction ctx opcode vch pc st = some st') (hle : st.nOpCount ≤ 201) :
    st.nOpCount ≤ st'.nOpCount ∧ st'.nOpCount ≤ 201 := by
  simp only [execInstruction] at h
  split at h
  · cases h
    exact ⟨le_rfl, hle⟩
  · split at h
    · exact nOpCount_execOp h hle
    · cases h
      exact ⟨le_rfl, hle⟩

/-- The states of the evaluation of a script after each instruction, with the opcodes that were read. -/
inductive Reaches (ctx : EvalContext) (stack : List Bytes) (script : CScript) :
    List UInt8 → Bytes → Machine → Prop
  | start (hsize : script.length ≤ 10000) : Reaches ctx stack script [] script (Machine.start stack script)
  | step {opcodes : List UInt8} {pc vch next : Bytes} {opcode : UInt8} {m m' : Machine}
      (hrun : Reaches ctx stack script opcodes pc m) (hop : getOp pc = some (opcode, vch, next))
      (hstep : Eval.evalStep ctx pc m = .ok next m') : Reaches ctx stack script (opcodes ++ [opcode]) next m'

def countedOpcodes (opcodes : List UInt8) : Nat := opcodes.countP fun opcode => opcode > op16

theorem countedOpcodes_append (opcodes : List UInt8) (opcode : UInt8) :
    countedOpcodes (opcodes ++ [opcode]) = Eval.countOp opcode (countedOpcodes opcodes) := by
  rw [countedOpcodes, List.countP_append, List.countP_singleton, Eval.countOp]
  simp only [decide_eq_true_eq]
  split <;> rfl

/-- The limits after the instructions that were read. -/
structure WithinLimits (opcodes : List UInt8) (m : Machine) : Prop where
  size : m.stack.length + m.altstack.length ≤ 1000
  small : SmallStacks m
  counted_le : countedOpcodes opcodes ≤ m.nOpCount
  count : m.nOpCount ≤ 201

/-- The limits at the start of an instruction that was read and is executed next. -/
structure ExecutesWithin (ctx : EvalContext) (opcodes : List UInt8) (instr : UInt8 × Bytes × Bytes) (m : Machine) :
    Prop where
  pushed : instr.2.1.length ≤ MAX_SCRIPT_ELEMENT_SIZE
  counted_le : countedOpcodes (opcodes ++ [instr.1]) ≤ m.nOpCount
  count : m.nOpCount ≤ 201
  inRange : Ends (Eval.execInstruction ctx instr.1 instr.2.1 instr.2.2) m (fun _ => SmallStacks)
    fun e m' => e = .returnFalse ∧ SmallStacks m'

theorem WithinLimits.fetched (hc : ctx.crypto.Sized) {instr : UInt8 × Bytes × Bytes}
    (h : WithinLimits opcodes m) (hfetch : Eval.Fetched pc m instr m') :
    ExecutesWithin ctx opcodes instr m' := by
  have hstate := hfetch.state
  have hsize := h.size
  have hcounted := h.counted_le
  have hcount := h.count
  have hfcount := hfetch.count
  have hlimit : m'.nOpCount ≤ 201 := by
    rw [hstate] at hfcount ⊢
    by_cases hop : instr.1 > op16
    · exact hfcount hop
    · rw [Eval.countOp, if_neg hop]
      exact hcount
  refine ⟨hfetch.size, ?_, hlimit, ?_⟩
  · rw [hstate, countedOpcodes_append, Eval.countOp, Eval.countOp]
    split <;> dsimp only <;> omega
  · refine Eval.ends_execInstruction_small hc _ _ hfetch.size ?_ ?_
    · rw [hstate]
      exact ⟨h.small.stack, h.small.altstack⟩
    · rw [hstate]
      dsimp only
      omega

theorem WithinLimits.start (hsize : stack.length ≤ 1000) (hsmall : SmallElements stack)
    (script : CScript) : WithinLimits [] (Machine.start stack script) where
  size := hsize
  small := ⟨hsmall, fun _ hx => absurd hx List.not_mem_nil⟩
  counted_le := Nat.le_refl 0
  count := Nat.zero_le 201

theorem WithinLimits.step (hc : ctx.crypto.Sized) {next : Bytes} (h : WithinLimits opcodes m)
    (hop : getOp pc = some (opcode, vch, next)) (hstep : Eval.evalStep ctx pc m = .ok next m') :
    WithinLimits (opcodes ++ [opcode]) m' := by
  have hround : Ends (Eval.evalStep ctx pc) m (fun _ m' => WithinLimits (opcodes ++ [opcode]) m') fun _ _ => True := by
    rw [Eval.evalStep, ends_bind]
    refine (Eval.ends_fetch ctx pc m).mono ?_ fun _ _ _ => trivial
    intro instr m₁ hfetch
    have hexec : ExecutesWithin ctx opcodes instr m₁ := h.fetched hc hfetch
    have hinstr : instr = (opcode, vch, next) := Option.some.inj (hfetch.getOp.symm.trans hop)
    subst hinstr
    rw [ends_bind]
    refine (hexec.inRange.and (Eval.agrees_execInstruction ctx opcode vch next m₁)).mono ?_ fun _ _ _ => trivial
    intro _ m₂ hend
    obtain ⟨hle, hcount⟩ := nOpCount_execInstruction hend.2.1 hexec.count
    rw [ends_bind, ends_get, ends_bind, Eval.ends_returnFalseIf]
    refine ⟨fun _ => trivial, fun hsize => ?_⟩
    exact ⟨Nat.not_lt.1 hsize, hend.1, Nat.le_trans hexec.counted_le hle, hcount⟩
  exact hround.of_eq_ok hstep

theorem Reaches.withinLimits (hc : ctx.crypto.Sized) (hsize : stack.length ≤ 1000)
    (hsmall : SmallElements stack) (h : Reaches ctx stack script opcodes pc m) :
    WithinLimits opcodes m := by
  induction h with
  | start _ => exact .start hsize hsmall script
  | step _ hop hstep ih => exact ih.step hc hop hstep

/-- How the loop ends from a state of the evaluation: after the last instruction, or in a round that returns
false. -/
theorem Reaches.ends_evalLoop (fuel : Nat) :
    ∀ {opcodes : List UInt8} {pc : Bytes} {m : Machine}, Reaches ctx stack script opcodes pc m →
      pc.length ≤ fuel →
      Ends (Eval.evalLoop ctx fuel pc) m (fun _ m' => ∃ opcodes, Reaches ctx stack script opcodes [] m')
        fun e m' => e = .returnFalse ∧
          ∃ opcodes pc m, Reaches ctx stack script opcodes pc m ∧ Eval.evalStep ctx pc m = .error e m' := by
  induction fuel with
  | zero =>
    intro opcodes pc m hrun hfuel
    rw [List.eq_nil_of_length_eq_zero (Nat.le_zero.1 hfuel)] at hrun ⊢
    exact ⟨opcodes, hrun⟩
  | succ fuel ih =>
    intro opcodes pc m hrun hfuel
    cases pc with
    | nil => exact ⟨opcodes, hrun⟩
    | cons b pc =>
      have hagrees := Eval.agrees_evalStep ctx (b :: pc) m
      rw [Eval.evalLoop, ends_bind]
      cases hround : Eval.evalStep ctx (b :: pc) m with
      | error e m' =>
        refine ends_of_error hround ⟨(Ends.of_eq_error hagrees hround).1, ?_⟩
        exact ⟨opcodes, b :: pc, m, hrun, hround⟩
      | ok next m' =>
        have hstep := (Ends.of_eq_ok hagrees hround).1
        have hlt := evalStep_length hstep
        refine ends_of_ok hround ?_
        cases hop : getOp (b :: pc) with
        | none => simp [evalStep, hop] at hstep
        | some instr =>
          obtain ⟨opcode, vch, next'⟩ := instr
          obtain ⟨rfl, -⟩ := evalStep_eq_some hop hstep
          exact ih (hrun.step hop hround) (by omega)

/-- An evaluation that returns false does so at the size of the script, in a round of its loop, or after the last
instruction. -/
def ReturnsFalse (ctx : EvalContext) (stack : List Bytes) (script : CScript) (e : Stop) (m : Machine) : Prop :=
  e = .returnFalse ∧ (script.length > 10000 ∨
    (∃ opcodes, Reaches ctx stack script opcodes [] m) ∨
    ∃ opcodes pc m₁, Reaches ctx stack script opcodes pc m₁ ∧ Eval.evalStep ctx pc m₁ = .error e m)

theorem ends_evalScript (ctx : EvalContext) (stack : List Bytes) (script : CScript) :
    Ends (Eval.evalScript ctx script) (Machine.start stack script)
      (fun _ m => ∃ opcodes, Reaches ctx stack script opcodes [] m) (ReturnsFalse ctx stack script) := by
  rw [Eval.evalScript, ends_bind, Eval.ends_returnFalseIf]
  refine ⟨fun hlarge => ⟨rfl, .inl hlarge⟩, fun hsmall => ?_⟩
  rw [ends_bind]
  refine ((Reaches.start (Nat.not_lt.1 hsmall)).ends_evalLoop script.length (le_rfl)).mono ?_ ?_
  · intro _ m hend
    rw [ends_bind, ends_get, Eval.ends_returnFalseIf]
    exact ⟨fun _ => ⟨rfl, .inr (.inl hend)⟩, fun _ => hend⟩
  · intro e m herror
    exact ⟨herror.1, .inr (.inr herror.2)⟩

/-- Throughout the evaluation of a script on a stack within the limits the two stacks hold 1000 elements at most
after every instruction, all of them small, no more than 201 instructions are counted, the next instruction that
is executed pushes small elements only, and no access is outside the stacks. -/
theorem evalScript_limits {ctx : EvalContext} (hc : ctx.crypto.Sized) {stack : List Bytes} (script : CScript)
    (hsize : stack.length ≤ 1000) (hsmall : SmallElements stack) :
    Ends (Eval.evalScript ctx script) (Machine.start stack script)
        (fun _ m => ∃ opcodes, Reaches ctx stack script opcodes [] m) (ReturnsFalse ctx stack script) ∧
      ∀ opcodes pc m, Reaches ctx stack script opcodes pc m → WithinLimits opcodes m ∧
        ∀ instr m', Eval.fetch pc m = .ok instr m' → ExecutesWithin ctx opcodes instr m' := by
  refine ⟨ends_evalScript ctx stack script, fun opcodes pc m hrun => ?_⟩
  have hlimits := hrun.withinLimits hc hsize hsmall
  refine ⟨hlimits, fun instr m' hfetch => ?_⟩
  exact hlimits.fetched hc ((Eval.ends_fetch ctx pc m).of_eq_ok hfetch)

theorem noSignature_sized : noSignature.crypto.Sized := ⟨fun _ => rfl, fun _ => rfl, fun _ => rfl⟩

def double : CScript := [0x76, 0x93]

theorem reaches_double_dup : Reaches noSignature [[1]] double [0x76] [0x93] ⟨⟨[[1], [1]], [], [], 1, double⟩, 0⟩ :=
  .step (.start (by decide)) (show CScript.getOp double = some (0x76, [], [0x93]) from rfl) rfl

theorem evalScript_limits_double : WithinLimits [0x76] ⟨⟨[[1], [1]], [], [], 1, double⟩, 0⟩ ∧
      ExecutesWithin noSignature [0x76] (0x93, [], []) ⟨⟨[[1], [1]], [], [], 2, double⟩, 0⟩ := by
  have hsmall : SmallElements [[1]] := by unfold SmallElements; decide
  have hlimits := (evalScript_limits noSignature_sized double (by decide) hsmall).2 _ _ _ reaches_double_dup
  exact ⟨hlimits.1, hlimits.2 _ _ rfl⟩

end Stealth

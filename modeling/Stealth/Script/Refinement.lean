import Stealth.Script.Machine

/-! The machine follows the interpreter, and never accesses a vector out of its range. -/

namespace Stealth

open Effect CScript

variable {α β : Type} {m : Machine} {x : Bytes} {n k : Nat}

/-- The computation ends as the result says, never outside a vector, with at most `limit` calls of `CheckSig`
since the start of the script. -/
def Agrees {α β : Type} (x : Eval α) (view : α → ScriptState → β) (result : Option β) (limit : Nat) (m : Machine) :
    Prop :=
  Ends x m (fun a m' => result = some (view a m'.toScriptState) ∧ m'.nChecks ≤ limit)
    fun e m' => e = .returnFalse ∧ result = none ∧ m'.nChecks ≤ limit

variable {view : α → ScriptState → β} {result : Option β}

theorem Agrees.congr {x y : Eval α} {limit : Nat} (hxy : x m = y m) (h : Agrees y view result limit m) :
    Agrees x view result limit m := by
  rw [Agrees, Ends, hxy]
  exact h

theorem Agrees.mono {x : Eval α} {limit limit' : Nat} (h : Agrees x view result limit m)
    (hle : limit ≤ limit') :
    Agrees x view result limit' m :=
  Ends.mono h (fun _ _ hok => ⟨hok.1, Nat.le_trans hok.2 hle⟩)
    fun _ _ herr => ⟨herr.1, herr.2.1, Nat.le_trans herr.2.2 hle⟩

namespace Eval

variable {m : Machine} {E : Stop → Machine → Prop}

section
variable {Q : Unit → Machine → Prop}

@[simp] theorem ends_returnFalseIf {c : Prop} [Decidable c] :
    Ends (returnFalseIf c) m Q E ↔ (c → E .returnFalse m) ∧ (¬ c → Q () m) := by
  rw [returnFalseIf, ends_ite]
  rfl

@[simp] theorem ends_onlyIf {c : Prop} [Decidable c] {x : Eval Unit} :
    Ends (onlyIf c x) m Q E ↔ (c → Ends x m Q E) ∧ (¬ c → Q () m) := by
  rw [onlyIf, ends_ite]
  rfl

@[simp] theorem ends_require :
    Ends (require n) m Q E ↔ (m.stack.length < n → E .returnFalse m) ∧ (¬ m.stack.length < n → Q () m) := by
  rw [require, ends_bind, ends_get, ends_returnFalseIf]

@[simp] theorem ends_popstack : Ends popstack m Q E ↔
      (∀ x s, m.stack = x :: s → Q () { m with stack := s }) ∧ (m.stack = [] → E .outOfRange m) := by
  rw [popstack, ends_bind, ends_get]
  cases m.stack with
  | nil => simp
  | cons x s => simp

@[simp] theorem ends_eraseTops : Ends (eraseTops k n) m Q E ↔
      (n ≤ k ∧ k ≤ m.stack.length → Q () { m with stack := m.stack.take (k - n) ++ m.stack.drop k }) ∧
      (¬ (n ≤ k ∧ k ≤ m.stack.length) → E .outOfRange m) := by
  rw [eraseTops, ends_bind, ends_get, ends_ite]
  rfl

@[simp] theorem ends_insertTop {vch : Bytes} : Ends (insertTop k vch) m Q E ↔
      (k ≤ m.stack.length → Q () { m with stack := m.stack.take k ++ vch :: m.stack.drop k }) ∧
      (¬ k ≤ m.stack.length → E .outOfRange m) := by
  rw [insertTop, ends_bind, ends_get, ends_ite]
  rfl

end

section
variable {α : Type} {Q : α → Machine → Prop}

@[simp] theorem ends_orReturnFalse {x : Option α} :
    Ends (orReturnFalse x) m Q E ↔ (∀ a, x = some a → Q a m) ∧ (x = none → E .returnFalse m) := by
  cases x with
  | none => simp [orReturnFalse]
  | some a => simp [orReturnFalse]

@[simp] theorem ends_inRange {x : Option α} :
    Ends (inRange x) m Q E ↔ (∀ a, x = some a → Q a m) ∧ (x = none → E .outOfRange m) := by
  cases x with
  | none => simp [inRange]
  | some a => simp [inRange]

end

@[simp] theorem ends_stacktop {Q : Bytes → Machine → Prop} : Ends (stacktop (k + 1)) m Q E ↔
      (∀ x, m.stack[k]? = some x → Q x m) ∧ (m.stack[k]? = none → E .outOfRange m) := by
  rw [stacktop, ends_bind, ends_get, ends_inRange]

theorem ends_require_bind {Q : α → Machine → Prop} {f : Unit → Eval α}
    (h : n ≤ m.stack.length) : Ends (require n >>= f) m Q E ↔ Ends (f ()) m Q E := by
  rw [ends_bind, ends_require]
  exact ⟨fun hf => hf.2 (Nat.not_lt.2 h), fun hf => ⟨fun hlt => absurd h (Nat.not_le.2 hlt), fun _ => hf⟩⟩

theorem ends_stacktop_bind {Q : α → Machine → Prop} {f : Bytes → Eval α}
    (hx : m.stack[k]? = some x) : Ends (stacktop (k + 1) >>= f) m Q E ↔ Ends (f x) m Q E := by
  rw [ends_bind, ends_stacktop, hx]
  simp

theorem ends_stackNum {Q : Int → Machine → Prop} (hx : m.stack[k]? = some x) : Ends (stackNum (k + 1)) m Q E ↔
      (∀ bn, castToNum x = some bn → Q bn m) ∧ (castToNum x = none → E .returnFalse m) := by
  rw [stackNum, ends_bind, ends_stacktop, hx]
  simp

def AgreesStack (op : Opcode) : Prop :=
  ∀ m : Machine, Agrees (stackOp op) (fun _ st => st)
    ((Stealth.stackOp op m.stack).map fun stack => { m.toScriptState with stack := stack }) m.nChecks m

theorem agreesStack_ifDup : AgreesStack .ifDup := by
  rintro ⟨⟨_ | ⟨x, s⟩, alt, vf, n, code⟩, k⟩
  · exact ⟨rfl, rfl, le_rfl⟩
  · have hresult : Stealth.stackOp .ifDup (x :: s) = some (if castToBool x then x :: x :: s else x :: s) := rfl
    refine Agrees.congr (y := onlyIf (castToBool x) (pushBack x)) rfl ?_
    dsimp only
    rw [hresult]
    cases castToBool x with
    | false => exact ⟨rfl, le_rfl⟩
    | true => exact ⟨rfl, le_rfl⟩

/-- The end of an opcode that goes on with the rest of the stack if its top is true. -/
theorem agrees_verifyTop (x : Bytes) (stack : List Bytes) (m : Machine) : Agrees (do
        let vch ← stacktop 1
        returnFalseIf (castToBool vch = false)
        popstack) (fun _ st => st)
      ((if castToBool x then some stack else none).map fun stack => { m.toScriptState with stack := stack }) m.nChecks
      { m with stack := x :: stack } := by
  refine Agrees.congr (y := returnFalseIf (castToBool x = false) >>= fun _ => popstack) rfl ?_
  cases castToBool x with
  | false => exact ⟨rfl, rfl, le_rfl⟩
  | true => exact ⟨rfl, le_rfl⟩

theorem agreesStack_verify : AgreesStack .verify
  | ⟨⟨[], _, _, _, _⟩, _⟩ => ⟨rfl, rfl, le_rfl⟩
  | ⟨⟨x :: s, alt, vf, n, code⟩, k⟩ => (agrees_verifyTop x s ⟨⟨x :: s, alt, vf, n, code⟩, k⟩).congr rfl

theorem agrees_verifyResult (fVerify f : Bool) (stack : List Bytes) (m : Machine) :
    Agrees (verifyResult fVerify f) (fun _ st => st)
      ((pushResult fVerify f stack).map fun stack => { m.toScriptState with stack := stack }) m.nChecks
      { m with stack := vchBool f :: stack } := by
  cases fVerify with
  | false => exact ⟨rfl, le_rfl⟩
  | true =>
    cases f with
    | false => exact ⟨rfl, rfl, le_rfl⟩
    | true => exact ⟨rfl, le_rfl⟩

theorem agreesStack_equal (fVerify : Bool) : AgreesStack (.equal fVerify)
  | ⟨⟨[], _, _, _, _⟩, _⟩ => ⟨rfl, rfl, le_rfl⟩
  | ⟨⟨[_], _, _, _, _⟩, _⟩ => ⟨rfl, rfl, le_rfl⟩
  | ⟨⟨x :: y :: s, alt, vf, n, code⟩, k⟩ =>
    agrees_verifyResult fVerify (y == x) s ⟨⟨x :: y :: s, alt, vf, n, code⟩, k⟩

theorem agreesStack_claim : AgreesStack .claim := by
  rintro ⟨⟨_ | ⟨x, _ | ⟨y, _ | ⟨z, _ | ⟨w, s⟩⟩⟩⟩, alt, vf, n, code⟩, k⟩
  · exact ⟨rfl, rfl, le_rfl⟩
  · exact ⟨rfl, rfl, le_rfl⟩
  · exact ⟨rfl, rfl, le_rfl⟩
  · have hresult : Stealth.stackOp .claim [x, y, z] = if x.length = 41 then some [y, z] else none := rfl
    refine Agrees.congr (y := returnFalseIf (x.length ≠ 41) >>= fun _ => popstack) rfl ?_
    dsimp only
    rw [hresult, Agrees, ends_bind, ends_returnFalseIf]
    by_cases hx : x.length = 41
    · rw [if_pos hx]
      exact ⟨fun h => absurd hx h, fun _ => ⟨rfl, le_rfl⟩⟩
    · rw [if_neg hx]
      exact ⟨fun _ => ⟨rfl, rfl, le_rfl⟩, fun h => absurd hx h⟩
  · exact ⟨rfl, rfl, le_rfl⟩

theorem agreesStack_unary (op : UnaryOp) : AgreesStack (.unary op) := by
  rintro ⟨⟨_ | ⟨x, s⟩, alt, vf, n, code⟩, k⟩
  · exact ⟨rfl, rfl, le_rfl⟩
  · have hresult : Stealth.stackOp (.unary op) (x :: s) =
        (castToNum x).bind fun bn => some (getVch (op.eval bn) :: s) := rfl
    refine Agrees.congr (y := orReturnFalse (castToNum x) >>= fun bn =>
      popstack >>= fun _ => pushBack (getVch (op.eval bn))) rfl ?_
    dsimp only
    rw [hresult]
    cases castToNum x with
    | none => exact ⟨rfl, rfl, le_rfl⟩
    | some bn => exact ⟨rfl, le_rfl⟩

theorem agrees_numEqualVerify (op : BinaryOp) (vch : Bytes) (stack : List Bytes) (m : Machine) :
    Agrees (onlyIf (op = .numEqualVerify) do
        let vch ← stacktop 1
        returnFalseIf (castToBool vch = false)
        popstack) (fun _ st => st)
      ((if op = .numEqualVerify then (if castToBool vch then some stack else none) else some (vch :: stack)).map
        fun stack => { m.toScriptState with stack := stack }) m.nChecks { m with stack := vch :: stack } := by
  by_cases hop : op = .numEqualVerify
  · rw [if_pos hop, onlyIf, if_pos hop]
    exact agrees_verifyTop vch stack m
  · rw [if_neg hop, onlyIf, if_neg hop]
    exact ⟨rfl, le_rfl⟩

theorem agreesStack_binary (op : BinaryOp) : AgreesStack (.binary op) := by
  rintro ⟨⟨_ | ⟨x, _ | ⟨y, s⟩⟩, alt, vf, n, code⟩, k⟩
  · exact ⟨rfl, rfl, le_rfl⟩
  · exact ⟨rfl, rfl, le_rfl⟩
  · have hresult : Stealth.stackOp (.binary op) (x :: y :: s) =
        (castToNum y).bind fun bn1 => (castToNum x).bind fun bn2 =>
          if op = .numEqualVerify then (if castToBool (getVch (op.eval bn1 bn2)) then some s else none)
          else some (getVch (op.eval bn1 bn2) :: s) := rfl
    dsimp only
    rw [hresult, Agrees, stackOp]
    refine (ends_require_bind (by simp)).2 ?_
    rw [ends_bind, ends_stackNum rfl]
    refine ⟨fun bn1 hy => ?_, fun hy => ⟨rfl, by rw [hy]; rfl, le_rfl⟩⟩
    rw [ends_bind, ends_stackNum rfl, hy]
    refine ⟨fun bn2 hx => ?_, fun hx => ⟨rfl, by rw [hx]; rfl, le_rfl⟩⟩
    rw [hx]
    exact agrees_numEqualVerify op (getVch (op.eval bn1 bn2)) s ⟨⟨x :: y :: s, alt, vf, n, code⟩, k⟩

theorem agreesStack_within : AgreesStack .within := by
  rintro ⟨⟨_ | ⟨x, _ | ⟨y, _ | ⟨z, s⟩⟩⟩, alt, vf, n, code⟩, k⟩
  · exact ⟨rfl, rfl, le_rfl⟩
  · exact ⟨rfl, rfl, le_rfl⟩
  · exact ⟨rfl, rfl, le_rfl⟩
  · have hresult : Stealth.stackOp .within (x :: y :: z :: s) =
        (castToNum z).bind fun bn1 => (castToNum y).bind fun bn2 => (castToNum x).bind fun bn3 =>
          some (vchBool (decide (bn2 ≤ bn1) && decide (bn1 < bn3)) :: s) := rfl
    dsimp only
    rw [hresult, Agrees, stackOp]
    refine (ends_require_bind (by simp)).2 ?_
    rw [ends_bind, ends_stackNum rfl]
    refine ⟨fun bn1 hz => ?_, fun hz => ⟨rfl, by rw [hz]; rfl, le_rfl⟩⟩
    rw [ends_bind, ends_stackNum rfl, hz]
    refine ⟨fun bn2 hy => ?_, fun hy => ⟨rfl, by rw [hy]; rfl, le_rfl⟩⟩
    rw [ends_bind, ends_stackNum rfl, hy]
    refine ⟨fun bn3 hx => ?_, fun hx => ⟨rfl, by rw [hx]; rfl, le_rfl⟩⟩
    rw [hx]
    exact ⟨rfl, le_rfl⟩

theorem agrees_pickAt (fRoll : Bool) (i : Int) (m : Machine) : Agrees (do
        let m ← get
        returnFalseIf (i < 0 ∨ i ≥ m.stack.length)
        let vch ← stacktop (i.toNat + 1)
        onlyIf fRoll (eraseTops (i.toNat + 1) 1)
        pushBack vch) (fun _ st => st)
      ((if i < 0 then none
        else (m.stack[i.toNat]?).bind fun vch =>
          some (vch :: if fRoll then m.stack.eraseIdx i.toNat else m.stack)).map
        fun stack => { m.toScriptState with stack := stack }) m.nChecks m := by
  rw [Agrees, ends_bind, ends_get, ends_bind, ends_returnFalseIf]
  refine ⟨fun hout => ⟨rfl, ?_, le_rfl⟩, fun hin => ?_⟩
  · rcases hout with hneg | hge
    · rw [if_pos hneg]
      rfl
    · have hnone : m.stack[i.toNat]? = none := List.getElem?_eq_none (by omega)
      rw [hnone]
      split <;> rfl
  · obtain ⟨hneg, hlt⟩ := not_or.1 hin
    have hlt : i.toNat < m.stack.length := by omega
    have hget : m.stack[i.toNat]? = some m.stack[i.toNat] := List.getElem?_eq_getElem hlt
    rw [if_neg hneg, ends_bind, ends_stacktop, hget]
    refine ⟨fun vch hvch => ?_, fun h => by cases h⟩
    cases hvch
    rw [ends_bind, ends_onlyIf]
    refine ⟨fun hroll => ?_, fun hroll => ?_⟩
    · rw [ends_eraseTops, if_pos hroll, List.eraseIdx_eq_take_drop_succ]
      exact ⟨fun _ => ⟨rfl, le_rfl⟩, fun h => absurd ⟨Nat.le_add_left 1 _, hlt⟩ h⟩
    · rw [if_neg hroll]
      exact ⟨rfl, le_rfl⟩

theorem agreesStack_pick (fRoll : Bool) : AgreesStack (.pick fRoll) := by
  rintro ⟨⟨_ | ⟨x, _ | ⟨y, s⟩⟩, alt, vf, n, code⟩, k⟩
  · exact ⟨rfl, rfl, le_rfl⟩
  · exact ⟨rfl, rfl, le_rfl⟩
  · have hresult : Stealth.stackOp (.pick fRoll) (x :: y :: s) =
        (castToNum x).bind fun i => if i < 0 then none
          else ((y :: s)[i.toNat]?).bind fun vch =>
            some (vch :: if fRoll then (y :: s).eraseIdx i.toNat else y :: s) := rfl
    dsimp only
    rw [hresult, Agrees, stackOp]
    refine (ends_require_bind (by simp)).2 ?_
    rw [ends_bind, ends_stackNum rfl]
    refine ⟨fun i hx => ?_, fun hx => ⟨rfl, by rw [hx]; rfl, le_rfl⟩⟩
    rw [hx, Option.bind_some]
    exact agrees_pickAt fRoll i ⟨⟨y :: s, alt, vf, n, code⟩, k⟩

/-- The computation ends as the result says and only checks signatures, at most `n` of them. -/
def OnlyChecks {α : Type} (x : Eval α) (result : Option α) (n : Nat) (m : Machine) : Prop :=
  Ends x m (fun a m' => result = some a ∧ ∃ j ≤ n, m' = { m with nChecks := m.nChecks + j })
    fun e m' => e = .returnFalse ∧ result = none ∧ ∃ j ≤ n, m' = { m with nChecks := m.nChecks + j }

theorem OnlyChecks.bind {x : Eval α} {f : α → Eval β} {r : Option α} {g : α → Option β} {n' : Nat}
    (hx : OnlyChecks x r n m) (hf : ∀ a j, OnlyChecks (f a) (g a) n' { m with nChecks := m.nChecks + j }) :
    OnlyChecks (x >>= f) (r.bind g) (n + n') m := by
  rw [OnlyChecks, ends_bind]
  refine Ends.mono hx ?_ ?_
  · rintro a _ ⟨rfl, j, hj, rfl⟩
    refine (hf a j).mono ?_ ?_
    · rintro b _ ⟨hg, i, hi, rfl⟩
      exact ⟨hg, j + i, Nat.add_le_add hj hi, by rw [Nat.add_assoc]⟩
    · rintro e _ ⟨he, hg, i, hi, rfl⟩
      exact ⟨he, hg, j + i, Nat.add_le_add hj hi, by rw [Nat.add_assoc]⟩
  · rintro e _ ⟨he, rfl, j, hj, rfl⟩
    exact ⟨he, rfl, j, Nat.le_add_right_of_le hj, rfl⟩

theorem onlyChecks_checkStackSig (ctx : EvalContext) (scriptCode : CScript) (vchSig vchPubKey : Bytes)
    (m : Machine) :
    OnlyChecks (checkStackSig ctx scriptCode vchSig vchPubKey) (ctx.check scriptCode vchSig vchPubKey) 1 m := by
  rw [OnlyChecks, checkStackSig, EvalContext.check, Stealth.checkStackSig, ends_bind, ends_returnFalseIf]
  refine ⟨fun hstrict => ⟨rfl, if_pos hstrict, 0, Nat.zero_le _, rfl⟩, fun hstrict => ?_⟩
  rw [if_neg hstrict, ends_bind, ends_onlyIf]
  exact ⟨fun _ => ⟨rfl, 1, le_rfl, rfl⟩, fun _ => ⟨rfl, 0, Nat.zero_le _, rfl⟩⟩

theorem agrees_pushSuccess (fVerify f : Bool) (m : Machine) : Agrees (do
        pushBack (vchBool f)
        verifyResult fVerify f) (fun _ st => st)
      ((pushResult fVerify f m.stack).bind fun stack => some { m.toScriptState with stack := stack })
      m.nChecks m := by
  have h := agrees_verifyResult fVerify f m.stack m
  rw [Option.map_eq_bind] at h
  exact h

theorem agrees_checkSigOp (ctx : EvalContext) (fVerify : Bool) (m : Machine) :
    Agrees (checkSigOp ctx fVerify) (fun _ st => st) (Stealth.checkSigOp ctx fVerify m.toScriptState)
      (m.nChecks + 1) m := by
  rcases m with ⟨⟨_ | ⟨x, _ | ⟨y, s⟩⟩, alt, vf, n, code⟩, k⟩
  · exact ⟨rfl, rfl, Nat.le_succ _⟩
  · exact ⟨rfl, rfl, Nat.le_succ _⟩
  · have hresult : Stealth.checkSigOp ctx fVerify ⟨x :: y :: s, alt, vf, n, code⟩ =
        (ctx.check (findAndDelete (push [] y) code) y x).bind fun f =>
          (pushResult fVerify f s).bind fun stack => some ⟨stack, alt, vf, n, code⟩ := rfl
    dsimp only
    rw [hresult, Agrees, checkSigOp]
    refine (ends_require_bind (by simp)).2 ?_
    rw [ends_stacktop_bind rfl, ends_stacktop_bind rfl, ends_bind, ends_get, ends_bind]
    refine (onlyChecks_checkStackSig ctx _ y x _).mono ?_ ?_
    · rintro f _ ⟨hcheck, j, hj, rfl⟩
      rw [hcheck]
      exact (agrees_pushSuccess fVerify f ⟨⟨s, alt, vf, n, code⟩, k + j⟩).mono (Nat.add_le_add_left hj k)
    · rintro e _ ⟨he, hcheck, j, hj, rfl⟩
      rw [hcheck]
      exact ⟨he, rfl, Nat.add_le_add_left hj k⟩

variable {y : Bytes} {nKeys : Int} {l r : List α} {t s : List Bytes} {ctx : EvalContext}

theorem getElem?_of_drop {x : α} (h : l.drop k = x :: r) : l[k]? = some x := by
  rw [← List.head?_drop, h]
  rfl

theorem drop_succ_of_drop {x : α} (h : l.drop k = x :: r) : l.drop (k + 1) = r := by
  rw [← List.tail_drop, h]
  rfl

theorem ends_deleteSigs (m : Machine) (rest : List Bytes) :
    ∀ (sigs : List Bytes) (k : Nat) (scriptCode : CScript), m.stack.drop k = sigs ++ rest →
      Ends (deleteSigs (k + 1) sigs.length scriptCode) m
        (fun code m' => code = sigs.foldl (fun code vchSig => findAndDelete (push [] vchSig) code) scriptCode ∧
          m' = m)
        fun _ _ => False
  | [], _, _, _ => ⟨rfl, rfl⟩
  | vchSig :: sigs, k, scriptCode, h => by
    rw [List.length_cons, deleteSigs, ends_stacktop_bind (getElem?_of_drop h)]
    exact ends_deleteSigs m rest sigs (k + 1) _ (drop_succ_of_drop h)

theorem ends_popTimes : ∀ (n : Nat) (m : Machine), n ≤ m.stack.length →
    Ends (popTimes n) m (fun _ m' => m' = { m with stack := m.stack.drop n }) fun _ _ => False
  | 0, _, _ => rfl
  | n + 1, m, h => by
    rw [popTimes, ends_bind, ends_popstack]
    refine ⟨fun x s hs => ?_, fun hs => ?_⟩
    · rw [hs, List.length_cons] at h
      rw [hs, List.drop_succ_cons]
      exact ends_popTimes n { m with stack := s } (Nat.le_of_succ_le_succ h)
    · rw [hs] at h
      exact absurd h (Nat.not_succ_le_zero n)

theorem onlyChecks_checkMultisigLoop (ctx : EvalContext) (scriptCode : CScript) (sigsRest keysRest : List Bytes) :
    ∀ (keys sigs : List Bytes) (isig ikey : Nat) (m : Machine), sigs.length ≤ keys.length →
      m.stack.drop isig = sigs ++ sigsRest → m.stack.drop ikey = keys ++ keysRest →
      OnlyChecks (checkMultisigLoop ctx scriptCode keys.length (isig + 1) (ikey + 1) sigs.length)
        (Stealth.checkMultisigLoop (ctx.check scriptCode) sigs keys) keys.length m := by
  intro keys
  induction keys with
  | nil =>
    intro sigs isig ikey m hle _ _
    obtain rfl := List.eq_nil_of_length_eq_zero (Nat.le_zero.1 hle)
    exact ⟨rfl, 0, Nat.le_refl 0, rfl⟩
  | cons vchPubKey keys ih =>
    intro sigs isig ikey m hle hsigs hkeys
    cases sigs with
    | nil => exact ⟨rfl, 0, Nat.zero_le _, rfl⟩
    | cons vchSig sigs =>
      have hround : ∀ left isig' j, m.stack.drop isig' = left ++ sigsRest →
          OnlyChecks (if left.length > keys.length then pure false
              else checkMultisigLoop ctx scriptCode keys.length (isig' + 1) (ikey + 2) left.length)
            (if left.length > keys.length then some false
              else Stealth.checkMultisigLoop (ctx.check scriptCode) left keys)
            keys.length { m with nChecks := m.nChecks + j } := by
        intro left isig' j hdrop
        split
        · exact ⟨rfl, 0, Nat.zero_le _, rfl⟩
        · next hleft => exact ih left isig' (ikey + 1) _ (Nat.not_lt.1 hleft) hdrop (drop_succ_of_drop hkeys)
      rw [OnlyChecks, List.length_cons, List.length_cons, checkMultisigLoop,
        ends_stacktop_bind (getElem?_of_drop hsigs), ends_stacktop_bind (getElem?_of_drop hkeys),
        Stealth.checkMultisigLoop, Nat.add_comm keys.length 1]
      refine (onlyChecks_checkStackSig ctx scriptCode vchSig vchPubKey m).bind fun fOk j => ?_
      cases fOk with
      | true => exact hround sigs (isig + 1) j (drop_succ_of_drop hsigs)
      | false => exact hround (vchSig :: sigs) isig j hsigs

def multisigKeys (stack : List Bytes) : Nat := min 20 ((stack.head?.bind castToNum).getD 0).toNat

/-- The interpreter's `OP_CHECKMULTISIG` from the number of signatures on. -/
def multisigResult (ctx : EvalContext) (fVerify : Bool) (nKeys : Int) (keys t : List Bytes) (y : Bytes)
    (st : ScriptState) : Option ScriptState :=
  (castToNum y).bind fun nSigs =>
    if nSigs < 0 ∨ nSigs > nKeys ∨ t.length < nSigs.toNat then none
    else
      (Stealth.checkMultisigLoop
        (ctx.check ((t.take nSigs.toNat).foldl (fun code vchSig => findAndDelete (push [] vchSig) code) st.codeHash))
        (t.take nSigs.toNat) keys).bind fun f =>
          match t.drop nSigs.toNat with
          | [] => none
          | dummy :: rest =>
            if ctx.flags.has Flags.nullDummy && !dummy.isEmpty then none
            else (pushResult fVerify f rest).bind fun stack => some { st with stack := stack }

theorem checkMultisigOp_of_keys {fVerify : Bool} {st : ScriptState} (hstack : st.stack = x :: s)
    (hx : castToNum x = some nKeys) (hkeys : ¬ (nKeys < 0 ∨ nKeys > 20))
    (hcount : ¬ st.nOpCount + nKeys.toNat > 201) (hs : s.drop nKeys.toNat = y :: t) :
    Stealth.checkMultisigOp ctx fVerify st =
      multisigResult ctx fVerify nKeys (s.take nKeys.toNat) t y
        { st with nOpCount := st.nOpCount + nKeys.toNat } := by
  rw [Stealth.checkMultisigOp, hstack]
  simp only [hx, Option.bind_eq_bind, Option.bind_some, if_neg hkeys, if_neg hcount, hs]
  rfl

/-- `OP_CHECKMULTISIG` after the checks: the arguments are popped and the result is pushed. -/
theorem agrees_multisigEnd (ctx : EvalContext) (fVerify f : Bool) {i : Nat} {dummy : Bytes} {rest : List Bytes}
    (m : Machine) (hdrop : m.stack.drop i = dummy :: rest) : Agrees (do
        popTimes i
        require 1
        onlyIf (ctx.flags.has Flags.nullDummy) do
          let dummy ← stacktop 1
          returnFalseIf (dummy.length ≠ 0)
        popstack
        pushBack (vchBool f)
        verifyResult fVerify f) (fun _ st => st)
      (if ctx.flags.has Flags.nullDummy && !dummy.isEmpty then none
        else (pushResult fVerify f rest).bind fun stack => some { m.toScriptState with stack := stack })
      m.nChecks m := by
  have hi : i ≤ m.stack.length := by
    by_contra hlt
    rw [List.drop_eq_nil_of_le (by omega)] at hdrop
    cases hdrop
  rw [Agrees, ends_bind]
  refine (ends_popTimes i m hi).mono ?_ fun _ _ h => h.elim
  rintro _ _ rfl
  rw [hdrop]
  refine (ends_require_bind (by simp)).2 ?_
  rw [ends_bind, ends_onlyIf]
  refine ⟨fun hnull => ?_, fun hnull => ?_⟩
  · rw [ends_stacktop_bind rfl, ends_returnFalseIf, hnull]
    refine ⟨fun hdummy => ⟨rfl, ?_, le_rfl⟩, fun hdummy => ?_⟩
    · cases dummy with
      | nil => exact absurd rfl hdummy
      | cons b dummy => rfl
    · obtain rfl := List.eq_nil_of_length_eq_zero (not_not.1 hdummy)
      exact agrees_pushSuccess fVerify f { m with stack := rest }
  · rw [Bool.eq_false_of_not_eq_true hnull]
    exact agrees_pushSuccess fVerify f { m with stack := rest }

theorem agrees_multisigSigs (ctx : EvalContext) (fVerify : Bool) (hkeys : ¬ nKeys < 0) (m : Machine)
    (hstack : m.stack = x :: s) (hs : s.drop nKeys.toNat = y :: t) : Agrees (do
        let nSigsCount ← stackNum (2 + nKeys.toNat)
        returnFalseIf (nSigsCount < 0 ∨ nSigsCount > nKeys)
        require (2 + nKeys.toNat + 1 + nSigsCount.toNat)
        let scriptCode ← deleteSigs (2 + nKeys.toNat + 1) nSigsCount.toNat m.codeHash
        let fSuccess ← checkMultisigLoop ctx scriptCode nKeys.toNat (2 + nKeys.toNat + 1) 2 nSigsCount.toNat
        popTimes (2 + nKeys.toNat + 1 + nSigsCount.toNat - 1)
        require 1
        onlyIf (ctx.flags.has Flags.nullDummy) do
          let dummy ← stacktop 1
          returnFalseIf (dummy.length ≠ 0)
        popstack
        pushBack (vchBool fSuccess)
        verifyResult fVerify fSuccess) (fun _ st => st)
      (multisigResult ctx fVerify nKeys (s.take nKeys.toNat) t y m.toScriptState) (m.nChecks + nKeys.toNat) m := by
  have hlen : m.stack.length = nKeys.toNat + 2 + t.length := by
    have hdrop := congrArg List.length hs
    rw [List.length_drop, List.length_cons] at hdrop
    rw [hstack, List.length_cons]
    omega
  have hy : m.stack.drop (nKeys.toNat + 1) = y :: t := by
    rw [hstack, List.drop_succ_cons, hs]
  have hi : 2 + nKeys.toNat = nKeys.toNat + 1 + 1 := by omega
  rw [hi, Agrees, multisigResult, ends_bind, ends_stackNum (getElem?_of_drop hy)]
  refine ⟨fun nSigs hnum => ?_, fun hnum => ⟨rfl, by rw [hnum]; rfl, Nat.le_add_right _ _⟩⟩
  rw [hnum, Option.bind_some, ends_bind, ends_returnFalseIf]
  refine ⟨fun hout => ⟨rfl, if_pos (or_assoc.1 (.inl hout)), Nat.le_add_right _ _⟩, fun hsigs => ?_⟩
  obtain ⟨hneg, hmany⟩ := not_or.1 hsigs
  rw [ends_bind, ends_require]
  refine ⟨fun hshort => ⟨rfl, ?_, Nat.le_add_right _ _⟩, fun hlong => ?_⟩
  · have hnil : t.drop nSigs.toNat = [] := List.drop_eq_nil_of_le (by omega)
    rw [hnil]
    split
    · rfl
    · cases Stealth.checkMultisigLoop _ _ _ <;> rfl
  · have hall : ¬ (nSigs < 0 ∨ nSigs > nKeys ∨ t.length < nSigs.toNat) := by omega
    obtain ⟨dummy, rest, hdummy⟩ : ∃ dummy rest, t.drop nSigs.toNat = dummy :: rest :=
      ⟨_, _, List.drop_eq_getElem_cons (by omega)⟩
    have hsigs : m.stack.drop (nKeys.toNat + 2) = t.take nSigs.toNat ++ dummy :: rest := by
      rw [drop_succ_of_drop hy, ← hdummy, List.take_append_drop]
    have hlenSigs : (t.take nSigs.toNat).length = nSigs.toNat := List.length_take_of_le (by omega)
    have hkeysDrop : m.stack.drop 1 = s.take nKeys.toNat ++ y :: t := by
      rw [hstack, List.drop_succ_cons, List.drop_zero, ← hs, List.take_append_drop]
    have hlenKeys : (s.take nKeys.toNat).length = nKeys.toNat := by
      rw [hstack, List.length_cons] at hlen
      exact List.length_take_of_le (by omega)
    rw [if_neg hall, hdummy, ends_bind]
    have hdelete := ends_deleteSigs m (dummy :: rest) (t.take nSigs.toNat) (nKeys.toNat + 2) m.codeHash hsigs
    rw [hlenSigs] at hdelete
    refine hdelete.mono ?_ fun _ _ h => h.elim
    rintro scriptCode m' ⟨rfl, hm⟩
    rw [hm]
    have hloop := fun code => onlyChecks_checkMultisigLoop ctx code (dummy :: rest) (y :: t) (s.take nKeys.toNat)
      (t.take nSigs.toNat) (nKeys.toNat + 2) 1 m (by omega) hsigs hkeysDrop
    rw [hlenKeys, hlenSigs] at hloop
    have hend : m.stack.drop (nKeys.toNat + 1 + 1 + 1 + nSigs.toNat - 1) = dummy :: rest := by
      rw [Nat.add_right_comm, Nat.add_sub_cancel, ← List.drop_drop, hsigs, List.drop_left' hlenSigs]
    rw [ends_bind]
    refine (hloop _).mono ?_ ?_
    · rintro f _ ⟨hresult, j, hj, rfl⟩
      rw [hresult]
      exact (agrees_multisigEnd ctx fVerify f { m with nChecks := m.nChecks + j } hend).mono
        (Nat.add_le_add_left hj _)
    · rintro e _ ⟨he, hresult, j, hj, rfl⟩
      rw [hresult]
      exact ⟨he, rfl, Nat.add_le_add_left hj _⟩

theorem agrees_checkMultisigOp (ctx : EvalContext) (fVerify : Bool) (m : Machine) :
    Agrees (checkMultisigOp ctx fVerify) (fun _ st => st) (Stealth.checkMultisigOp ctx fVerify m.toScriptState)
      (m.nChecks + multisigKeys m.stack) m := by
  rcases m with ⟨⟨_ | ⟨x, s⟩, alt, vf, n, code⟩, k⟩
  · exact ⟨rfl, rfl, Nat.le_add_right _ _⟩
  · rw [Agrees, checkMultisigOp]
    refine (ends_require_bind (by simp)).2 ?_
    rw [ends_bind, ends_stackNum rfl]
    refine ⟨fun nKeys hx => ?_, fun hx => ⟨rfl, by simp [Stealth.checkMultisigOp, hx], Nat.le_add_right _ _⟩⟩
    rw [ends_bind, ends_returnFalseIf]
    refine ⟨fun hout => ⟨rfl, by simp [Stealth.checkMultisigOp, hx, hout], Nat.le_add_right _ _⟩, fun hkeys => ?_⟩
    rw [ends_bind, ends_modify, ends_bind, ends_get, ends_bind, ends_returnFalseIf]
    refine ⟨fun hcount => ⟨rfl, ?_, Nat.le_add_right _ _⟩, fun hcount => ?_⟩
    · simp [Stealth.checkMultisigOp, hx, hkeys, hcount]
    rw [ends_bind, ends_require]
    refine ⟨fun hshort => ⟨rfl, ?_, Nat.le_add_right _ _⟩, fun hlong => ?_⟩
    · have hnil : s.drop nKeys.toNat = [] := by
        rw [List.length_cons] at hshort
        exact List.drop_eq_nil_of_le (by omega)
      simp [Stealth.checkMultisigOp, hx, hkeys, hcount, hnil]
    · obtain ⟨y, t, hs⟩ : ∃ y t, s.drop nKeys.toNat = y :: t := by
        rw [List.length_cons] at hlong
        exact ⟨_, _, List.drop_eq_getElem_cons (by omega)⟩
      have hlimit : nKeys.toNat ≤ multisigKeys (x :: s) := by
        rw [multisigKeys, List.head?_cons, Option.bind_some, hx, Option.getD_some]
        omega
      rw [checkMultisigOp_of_keys rfl hx hkeys hcount hs]
      exact (agrees_multisigSigs ctx fVerify (fun h => hkeys (.inl h))
        ⟨⟨x :: s, alt, vf, n + nKeys.toNat, code⟩, k⟩ rfl hs).mono (Nat.add_le_add_left hlimit k)

theorem agrees_checkLockTimeVerifyOp (ctx : EvalContext) (m : Machine) :
    Agrees (checkLockTimeVerifyOp ctx) (fun _ st => st) (Stealth.checkLockTimeVerifyOp ctx m.toScriptState)
      m.nChecks m := by
  rw [Agrees, checkLockTimeVerifyOp, Stealth.checkLockTimeVerifyOp, ends_ite]
  refine ⟨fun hflag => ?_, fun hflag => ?_⟩
  · rw [if_pos hflag]
    rcases m with ⟨⟨_ | ⟨x, s⟩, alt, vf, n, code⟩, k⟩
    · exact ⟨rfl, rfl, le_rfl⟩
    · refine (ends_require_bind (by simp)).2 ?_
      rw [ends_stacktop_bind rfl, ends_bind, ends_orReturnFalse]
      refine ⟨fun nLockTime hx => ?_, fun hx => ⟨rfl, by simp [hx], le_rfl⟩⟩
      rw [ends_bind, ends_returnFalseIf]
      refine ⟨fun hneg => ⟨rfl, by simp [hx, hneg], le_rfl⟩, fun hneg => ?_⟩
      rw [ends_returnFalseIf]
      exact ⟨fun hcheck => ⟨rfl, by simp [hx, hneg, hcheck], le_rfl⟩,
        fun hcheck => ⟨by simp [hx, hneg, hcheck], le_rfl⟩⟩
  · rw [if_neg hflag, ends_returnFalseIf]
    exact ⟨fun h => ⟨rfl, if_pos h, le_rfl⟩, fun h => ⟨if_neg h, le_rfl⟩⟩

def checks (op : Opcode) (stack : List Bytes) : Nat :=
  match op with
  | .checkSig _ => 1
  | .checkMultisig _ => multisigKeys stack
  | _ => 0

theorem agrees_execOp (ctx : EvalContext) (fExec : Bool) (pc : Bytes) (op : Opcode) (m : Machine) :
    Agrees (execOp ctx fExec pc op) (fun _ st => st) (Stealth.execOp ctx fExec pc op m.toScriptState)
      (m.nChecks + checks op m.stack) m := by
  cases op with
  | checkSig fVerify => exact agrees_checkSigOp ctx fVerify m
  | checkMultisig fVerify => exact agrees_checkMultisigOp ctx fVerify m
  | checkLockTimeVerify => exact agrees_checkLockTimeVerifyOp ctx m
  | upgradableNop =>
    rw [Agrees, execOp, Stealth.execOp, ends_returnFalseIf]
    exact ⟨fun h => ⟨rfl, if_pos h, le_rfl⟩, fun h => ⟨if_neg h, le_rfl⟩⟩
  | cond fNot =>
    cases fExec with
    | false => exact ⟨rfl, le_rfl⟩
    | true =>
      rcases m with ⟨⟨_ | ⟨x, s⟩, alt, vf, n, code⟩, k⟩
      · exact ⟨rfl, rfl, le_rfl⟩
      · exact ⟨rfl, le_rfl⟩
  | else_ | endIf =>
    rcases m with ⟨⟨s, alt, _ | ⟨f, vf⟩, n, code⟩, k⟩
    · exact ⟨rfl, rfl, le_rfl⟩
    · exact ⟨rfl, le_rfl⟩
  | fromAltStack =>
    rcases m with ⟨⟨s, _ | ⟨x, alt⟩, vf, n, code⟩, k⟩
    · exact ⟨rfl, rfl, le_rfl⟩
    · exact ⟨rfl, le_rfl⟩
  | disabled | unspendable | invalid => exact ⟨rfl, rfl, le_rfl⟩
  | smallInt n | nop | codeSeparator | depth => exact ⟨rfl, le_rfl⟩
  | toAltStack | hash op | drop2 | dup2 | dup3 | over2 | rot2 | swap2 | drop | dup | nip | «over» | rot | swap
  | tuck | size =>
    -- none of them looks at more than six elements of the stack
    rcases m with ⟨⟨_ | ⟨_, _ | ⟨_, _ | ⟨_, _ | ⟨_, _ | ⟨_, _ | ⟨_, _⟩⟩⟩⟩⟩⟩, _, _, _, _⟩, _⟩ <;>
      first
        | exact ⟨rfl, rfl, le_rfl⟩
        | exact ⟨rfl, le_rfl⟩
  | ifDup => exact agreesStack_ifDup m
  | pick fRoll => exact agreesStack_pick fRoll m
  | equal fVerify => exact agreesStack_equal fVerify m
  | unary op => exact agreesStack_unary op m
  | binary op => exact agreesStack_binary op m
  | within => exact agreesStack_within m
  | verify => exact agreesStack_verify m
  | claim => exact agreesStack_claim m

def instructionChecks (opcode : UInt8) (st : ScriptState) : Nat :=
  if st.vfExec.all id ∧ opcode ≤ opPushdata4 then 0
  else if st.vfExec.all id ∨ opIf ≤ opcode ∧ opcode ≤ opEndIf then checks (Opcode.ofByte opcode) st.stack
  else 0

theorem agrees_execInstruction (ctx : EvalContext) (opcode : UInt8) (vch pc : Bytes) (m : Machine) :
    Agrees (execInstruction ctx opcode vch pc) (fun _ st => st)
      (Stealth.execInstruction ctx opcode vch pc m.toScriptState)
      (m.nChecks + instructionChecks opcode m.toScriptState) m := by
  rw [Agrees, execInstruction, Stealth.execInstruction, instructionChecks, ends_bind, ends_get, ends_ite]
  refine ⟨fun hpush => ?_, fun hpush => ?_⟩
  · rw [if_pos hpush, if_pos hpush]
    exact ⟨rfl, le_rfl⟩
  · rw [if_neg hpush, if_neg hpush, ends_ite]
    refine ⟨fun hswitch => ?_, fun hswitch => ?_⟩
    · rw [if_pos hswitch, if_pos hswitch]
      exact agrees_execOp ctx _ pc _ m
    · rw [if_neg hswitch, if_neg hswitch]
      exact ⟨rfl, le_rfl⟩

def countOp (opcode : UInt8) (nOpCount : Nat) : Nat := if opcode > op16 then nOpCount + 1 else nOpCount

/-- What is known of an instruction that is going to be executed. -/
structure Fetched (pc : Bytes) (m : Machine) (instr : UInt8 × Bytes × Bytes) (m' : Machine) : Prop where
  getOp : getOp pc = some instr
  size : instr.2.1.length ≤ MAX_SCRIPT_ELEMENT_SIZE
  state : m' = { m with nOpCount := countOp instr.1 m.nOpCount }
  count : instr.1 > op16 → m'.nOpCount ≤ 201
  enabled : Opcode.ofByte instr.1 ≠ .disabled

theorem evalStep_of_getOp {pc vch next : Bytes} {opcode : UInt8}
    (hop : getOp pc = some (opcode, vch, next)) (st : ScriptState) : Stealth.evalStep ctx pc st =
      if vch.length > MAX_SCRIPT_ELEMENT_SIZE ∨ opcode > op16 ∧ countOp opcode st.nOpCount > 201 ∨
          Opcode.ofByte opcode = .disabled then none
      else
        (Stealth.execInstruction ctx opcode vch next { st with nOpCount := countOp opcode st.nOpCount }).bind
          fun st => if st.stack.length + st.altstack.length > 1000 then none else some (next, st) := by
  simp only [Stealth.evalStep, hop]
  rw [countOp]
  congr 1
  split
  · next h => rw [h]; rfl
  · next h => rw [h]; rfl

theorem ends_fetch (ctx : EvalContext) (pc : Bytes) (m : Machine) : Ends (fetch pc) m (Fetched pc m)
      fun e m' => e = .returnFalse ∧ Stealth.evalStep ctx pc m.toScriptState = none ∧ m'.nChecks = m.nChecks := by
  rw [fetch, ends_bind, ends_orReturnFalse]
  refine ⟨fun instr hop => ?_, fun hop => ⟨rfl, by rw [Stealth.evalStep, hop], rfl⟩⟩
  obtain ⟨opcode, vch, next⟩ := instr
  rw [evalStep_of_getOp hop]
  dsimp only
  rw [ends_bind, ends_returnFalseIf]
  refine ⟨fun hsize => ⟨rfl, if_pos (.inl hsize), rfl⟩, fun hsize => ?_⟩
  have hsize : vch.length ≤ MAX_SCRIPT_ELEMENT_SIZE := Nat.not_lt.1 hsize
  rw [ends_bind, ends_onlyIf]
  refine ⟨fun hcounted => ?_, fun hcounted => ?_⟩
  · have hcount : countOp opcode m.nOpCount = m.nOpCount + 1 := if_pos hcounted
    rw [hcount, ends_bind, ends_modify, ends_bind, ends_get, ends_returnFalseIf]
    refine ⟨fun hmany => ⟨rfl, if_pos (.inr (.inl ⟨hcounted, hmany⟩)), rfl⟩, fun hmany => ?_⟩
    rw [ends_bind, ends_returnFalseIf]
    refine ⟨fun hdis => ⟨rfl, if_pos (.inr (.inr hdis)), rfl⟩, fun hdis => ?_⟩
    exact ⟨hop, hsize, by rw [hcount], fun _ => Nat.not_lt.1 hmany, hdis⟩
  · have hcount : countOp opcode m.nOpCount = m.nOpCount := if_neg hcounted
    rw [hcount, ends_bind, ends_returnFalseIf]
    refine ⟨fun hdis => ⟨rfl, if_pos (.inr (.inr hdis)), rfl⟩, fun hdis => ?_⟩
    exact ⟨hop, hsize, by rw [hcount], fun h => absurd h hcounted, hdis⟩

def stepChecks (pc : Bytes) (st : ScriptState) : Nat :=
  match getOp pc with
  | none => 0
  | some (opcode, _, _) => instructionChecks opcode st

theorem agrees_evalStep (ctx : EvalContext) (pc : Bytes) (m : Machine) :
    Agrees (evalStep ctx pc) (fun pc st => (pc, st)) (Stealth.evalStep ctx pc m.toScriptState)
      (m.nChecks + stepChecks pc m.toScriptState) m := by
  rw [Agrees, evalStep, ends_bind]
  refine (ends_fetch ctx pc m).mono ?_ ?_
  · rintro ⟨opcode, vch, next⟩ m' hfetch
    have hguard : ¬ (vch.length > MAX_SCRIPT_ELEMENT_SIZE ∨ opcode > op16 ∧ countOp opcode m.nOpCount > 201 ∨
        Opcode.ofByte opcode = .disabled) := by
      have hcount := hfetch.count
      rw [hfetch.state] at hcount
      rintro (hsize | ⟨hop, hmany⟩ | hdis)
      · exact absurd hfetch.size (Nat.not_le.2 hsize)
      · exact absurd (hcount hop) (Nat.not_le.2 hmany)
      · exact hfetch.enabled hdis
    rw [evalStep_of_getOp hfetch.getOp, if_neg hguard, stepChecks, hfetch.getOp]
    dsimp only
    rw [ends_bind, hfetch.state]
    refine Ends.mono (agrees_execInstruction ctx opcode vch next
      { m with nOpCount := countOp opcode m.nOpCount }) ?_ ?_
    · rintro _ m'' ⟨hexec, hchecks⟩
      rw [hexec, ends_bind, ends_get, ends_bind, ends_returnFalseIf]
      exact ⟨fun hlarge => ⟨rfl, if_pos hlarge, hchecks⟩, fun hsmall => ⟨if_neg hsmall, hchecks⟩⟩
    · rintro e m'' ⟨he, hexec, hchecks⟩
      rw [hexec]
      exact ⟨he, rfl, hchecks⟩
  · rintro e m' ⟨he, hstep, hchecks⟩
    exact ⟨he, hstep, by rw [hchecks]; exact Nat.le_add_right _ _⟩

def loopChecks (ctx : EvalContext) : Nat → Bytes → ScriptState → Nat
  | _, [], _ => 0
  | 0, _ :: _, _ => 0
  | fuel + 1, b :: pc, st =>
    stepChecks (b :: pc) st +
      match Stealth.evalStep ctx (b :: pc) st with
      | none => 0
      | some (pc, st) => loopChecks ctx fuel pc st

theorem agrees_evalLoop (ctx : EvalContext) : ∀ (fuel : Nat) (pc : Bytes) (m : Machine),
    Agrees (evalLoop ctx fuel pc) (fun _ st => st) (Stealth.evalLoop ctx fuel pc m.toScriptState)
      (m.nChecks + loopChecks ctx fuel pc m.toScriptState) m := by
  intro fuel
  induction fuel with
  | zero =>
    intro pc m
    cases pc with
    | nil => exact ⟨rfl, le_rfl⟩
    | cons b pc => exact ⟨rfl, rfl, le_rfl⟩
  | succ fuel ih =>
    intro pc m
    cases pc with
    | nil => exact ⟨rfl, le_rfl⟩
    | cons b pc =>
      rw [Agrees, evalLoop, Stealth.evalLoop, loopChecks, ends_bind]
      refine Ends.mono (agrees_evalStep ctx (b :: pc) m) ?_ ?_
      · rintro pc' m' ⟨hstep, hchecks⟩
        rw [hstep]
        exact (ih pc' m').mono (by rw [← Nat.add_assoc]; exact Nat.add_le_add_right hchecks _)
      · rintro e m' ⟨he, hstep, hchecks⟩
        rw [hstep]
        exact ⟨he, rfl, Nat.le_trans hchecks (by omega)⟩

/-- The machine evaluates a script to what the interpreter does, and never accesses a vector out of its range. -/
theorem agrees_evalScript (ctx : EvalContext) (stack : List Bytes) (script : CScript) :
    Agrees (evalScript ctx script) (fun _ st => st.stack) (Stealth.evalScript ctx stack script)
      (if script.length > 10000 then 0 else loopChecks ctx script.length script ⟨stack, [], [], 0, script⟩)
      (Machine.start stack script) := by
  have hrun : Agrees (evalLoop ctx script.length script) (fun _ st => st)
      (Stealth.evalLoop ctx script.length script ⟨stack, [], [], 0, script⟩)
      (loopChecks ctx script.length script ⟨stack, [], [], 0, script⟩) (Machine.start stack script) :=
    (agrees_evalLoop ctx script.length script (Machine.start stack script)).mono (Nat.le_of_eq (Nat.zero_add _))
  rw [Agrees, evalScript, Stealth.evalScript, ends_bind, ends_returnFalseIf]
  refine ⟨fun hlarge => ⟨rfl, if_pos hlarge, Nat.zero_le _⟩, fun hsmall => ?_⟩
  rw [if_neg hsmall, if_neg hsmall, ends_bind]
  refine Ends.mono hrun ?_ ?_
  · rintro _ m ⟨hloop, hchecks⟩
    rw [hloop, ends_bind, ends_get, ends_returnFalseIf]
    refine ⟨fun hopen => ⟨rfl, ?_, hchecks⟩, fun hclosed => ⟨?_, hchecks⟩⟩
    · exact if_neg (by rw [hopen]; exact Bool.false_ne_true)
    · exact if_pos (Bool.eq_true_of_not_eq_false hclosed)
  · rintro e m ⟨he, hloop, hchecks⟩
    rw [hloop]
    exact ⟨he, rfl, hchecks⟩

end Eval

end Stealth

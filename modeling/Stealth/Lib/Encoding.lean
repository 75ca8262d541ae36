import Mathlib.Algebra.Order.Ring.Int
import Mathlib.Data.List.Basic

/-!
Byte encodings that can be split off the front of a byte string: whatever follows, the value and the rest
can be told apart.
-/

namespace Encoding

variable {α γ : Type}

/-- The values in `P` can be split off the front of any byte string that starts with their code. -/
def SplitsOn (P : α → Prop) (enc : α → List γ) : Prop :=
  ∀ a b s t, P a → P b → enc a ++ s = enc b ++ t → a = b ∧ s = t

theorem SplitsOn.eq {P : α → Prop} {enc : α → List γ} (h : SplitsOn P enc) {a b : α} (ha : P a)
    (hb : P b) (heq : enc a = enc b) : a = b :=
  (h a b [] [] ha hb (by rw [heq])).1

theorem splitsOn_of_length {P : α → Prop} {enc : α → List γ} {w : Nat}
    (hlen : ∀ a, P a → (enc a).length = w) (hinj : ∀ a b, P a → P b → enc a = enc b → a = b) :
    SplitsOn P enc := by
  intro a b s t ha hb heq
  obtain ⟨h₁, h₂⟩ := List.append_inj heq ((hlen a ha).trans (hlen b hb).symm)
  exact ⟨hinj a b ha hb h₁, h₂⟩

theorem SplitsOn.flatMap {P : α → Prop} {f : α → List γ} (hf : SplitsOn P f) :
    ∀ (l m : List α) (s t : List γ), (∀ a ∈ l, P a) → (∀ a ∈ m, P a) → l.length = m.length →
      l.flatMap f ++ s = m.flatMap f ++ t → l = m ∧ s = t := by
  intro l
  induction l with
  | nil =>
    intro m s t _ _ hlen heq
    cases m with
    | nil => exact ⟨rfl, heq⟩
    | cons b m => cases hlen
  | cons a l ih =>
    intro m s t hl hm hlen heq
    cases m with
    | nil => cases hlen
    | cons b m =>
      simp only [List.flatMap_cons, List.append_assoc] at heq
      obtain ⟨hhead, htail⟩ :=
        hf _ _ _ _ (hl a List.mem_cons_self) (hm b List.mem_cons_self) heq
      obtain ⟨hlist, hrest⟩ := ih m s t (fun x hx => hl x (List.mem_cons_of_mem _ hx))
        (fun x hx => hm x (List.mem_cons_of_mem _ hx)) (Nat.succ.inj hlen) htail
      exact ⟨by rw [hhead, hlist], hrest⟩

theorem SplitsOn.counted {P : α → Prop} {Q : Nat → Prop} {f : α → List γ} {count : Nat → List γ}
    (hcount : SplitsOn Q count) (hf : SplitsOn P f) : SplitsOn (fun l : List α => Q l.length ∧ ∀ a ∈ l, P a)
      (fun l => count l.length ++ l.flatMap f) := by
  intro l m s t hl hm heq
  rw [List.append_assoc, List.append_assoc] at heq
  obtain ⟨hlen, heq⟩ := hcount _ _ _ _ hl.1 hm.1 heq
  exact hf.flatMap l m s t hl.2 hm.2 hlen heq

def leBytes : Nat → Nat → List UInt8
  | 0, _ => []
  | w + 1, n => UInt8.ofNat n :: leBytes w (n / 256)

@[simp] theorem leBytes_length (w n : Nat) : (leBytes w n).length = w := by
  induction w generalizing n with
  | zero => rfl
  | succ w ih => simp [leBytes, ih]

theorem leBytes_inj (w : Nat) : ∀ n m : Nat, n < 256 ^ w → m < 256 ^ w →
    leBytes w n = leBytes w m → n = m := by
  induction w with
  | zero =>
    intro n m hn hm _
    rw [Nat.pow_zero] at hn hm
    omega
  | succ w ih =>
    intro n m hn hm heq
    rw [leBytes, leBytes, List.cons.injEq] at heq
    have hlow : n % 256 = m % 256 := by simpa using congrArg UInt8.toNat heq.1
    have hhigh : n / 256 = m / 256 := by
      rw [Nat.pow_succ] at hn hm
      exact ih _ _ (Nat.div_lt_of_lt_mul (by omega)) (Nat.div_lt_of_lt_mul (by omega)) heq.2
    omega

theorem splitsOn_leBytes (w : Nat) : SplitsOn (fun n => n < 256 ^ w) (leBytes w) :=
  splitsOn_of_length (fun n _ => leBytes_length w n) (leBytes_inj w)

/-- A reader of values at the front of a sequence; it fails where the sequence is too short. -/
abbrev Reader (γ α : Type) := StateT (List γ) Option α

/-- The values in `P` are read back from their code, whatever follows it. -/
def ReadsBack (P : α → Prop) (enc : α → List γ) (dec : Reader γ α) : Prop :=
  ∀ a s, P a → dec (enc a ++ s) = some (a, s)

section Readers

variable {β : Type} {P : α → Prop} {enc : α → List γ} {dec : Reader γ α} {a : α} {f : α → Reader γ β}
  {Q : β → Prop}

theorem ReadsBack.bind (h : ReadsBack P enc dec) (ha : P a) (f : α → Reader γ β) (s : List γ) :
    (dec >>= f) (enc a ++ s) = f a s := by
  change (dec (enc a ++ s)).bind (fun p => f p.1 p.2) = f a s
  rw [h a s ha]
  rfl

theorem ReadsBack.map (h : ReadsBack P enc dec) (ha : P a) (value : α → β) (s : List γ) :
    (value <$> dec) (enc a ++ s) = some (value a, s) := by
  change (dec (enc a ++ s)).bind (fun p => some (value p.1, p.2)) = _
  rw [h a s ha, Option.bind_some]

/-- A value that is written on a condition only, and else has a default. -/
def readIf (c : Bool) (dec : Reader γ α) (default : α) : Reader γ α := if c then dec else pure default

theorem ReadsBack.readIf_bind (h : ReadsBack P enc dec) (c : Bool) (ha : c = true → P a) (default : α)
    (f : α → Reader γ β) (s : List γ) :
    (readIf c dec default >>= f) ((if c then enc a else []) ++ s) = f (if c then a else default) s := by
  cases c with
  | true => exact h.bind (ha rfl) f s
  | false => rfl

def take (n : Nat) : Reader γ (List γ) := fun s => if s.length < n then none else some (s.splitAt n)

theorem readsBack_take (n : Nat) : ReadsBack (fun l : List γ => l.length = n) id (take n) := by
  intro l s hl
  subst hl
  rw [id, take, if_neg (by rw [List.length_append]; omega), List.splitAt_eq, List.take_left, List.drop_left]

theorem take_bind {n : Nat} {s : List γ} (h : n ≤ s.length) (f : List γ → Reader γ β) :
    (take n >>= f) s = f (s.take n) (s.drop n) := by
  change (take n s).bind (fun p => f p.1 p.2) = _
  rw [take, if_neg (not_lt.2 h), List.splitAt_eq]
  rfl

def readMany (dec : Reader γ α) : Nat → Reader γ (List α)
  | 0 => pure []
  | n + 1 => do
    let a ← dec
    let l ← readMany dec n
    pure (a :: l)

theorem ReadsBack.many (h : ReadsBack P enc dec) (l : List α) (s : List γ) (hl : ∀ a ∈ l, P a) :
    readMany dec l.length (l.flatMap enc ++ s) = some (l, s) := by
  induction l with
  | nil => rfl
  | cons a l ih =>
    rw [List.flatMap_cons, List.append_assoc, List.length_cons, readMany, h.bind (hl a List.mem_cons_self)]
    change (readMany dec l.length (l.flatMap enc ++ s)).bind (fun p => some (a :: p.1, p.2)) = _
    rw [ih fun b hb => hl b (List.mem_cons_of_mem _ hb), Option.bind_some]

def Yields (P : α → Prop) (dec : Reader γ α) : Prop := ∀ s a s', dec s = some (a, s') → P a

theorem yields_true (dec : Reader γ α) : Yields (fun _ => True) dec := fun _ _ _ _ => trivial

theorem yields_pure (ha : P a) : Yields P (pure a : Reader γ α) := by
  rintro s b s' h
  obtain ⟨rfl, -⟩ := Prod.ext_iff.1 (Option.some.inj h)
  exact ha

theorem Yields.bind (h : Yields P dec) (hf : ∀ a, P a → Yields Q (f a)) : Yields Q (dec >>= f) := by
  intro s b s' heq
  obtain ⟨⟨a, t⟩, hdec, hrest⟩ := Option.bind_eq_some_iff.1 heq
  exact hf a (h s a t hdec) t b s' hrest

theorem yields_bind (hf : ∀ a, Yields Q (f a)) : Yields Q (dec >>= f) :=
  (yields_true dec).bind fun a _ => hf a

theorem Yields.readIf (h : Yields P dec) (c : Bool) (default : α) :
    Yields (fun a => c = true → P a) (readIf c dec default) := by
  cases c with
  | true => exact fun s a s' heq _ => h s a s' heq
  | false => exact fun _ _ _ _ hc => absurd hc Bool.false_ne_true

theorem Yields.many (h : Yields P dec) (n : Nat) :
    Yields (fun l => l.length = n ∧ ∀ a ∈ l, P a) (readMany dec n) := by
  induction n with
  | zero => exact yields_pure ⟨rfl, by simp⟩
  | succ n ih =>
    refine h.bind fun a ha => ih.bind fun l hl => yields_pure ⟨congrArg (· + 1) hl.1, ?_⟩
    exact List.forall_mem_cons.2 ⟨ha, hl.2⟩

end Readers

end Encoding

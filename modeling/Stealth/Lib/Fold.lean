import Mathlib.Data.List.Basic

/-!
Folds that may fail: over products whose components do not see each other, and by steps that take one value
from each item.
-/

namespace OptionFold

variable {α β γ δ : Type}

def prodStep (f : α → γ → Option α) (g : β → γ → Option β) (s : α × β) (x : γ) : Option (α × β) :=
  (f s.1 x).bind fun a => (g s.2 x).map fun b => (a, b)

theorem foldlM_prodStep (f : α → γ → Option α) (g : β → γ → Option β) (l : List γ) :
    ∀ (a : α) (b : β), l.foldlM (prodStep f g) (a, b) =
      (l.foldlM f a).bind fun a => (l.foldlM g b).map fun b => (a, b) := by
  induction l with
  | nil => intro a b; rfl
  | cons x l ih =>
    intro a b
    simp only [List.foldlM_cons, prodStep, Option.bind_eq_bind]
    cases hf : f a x with
    | none => rfl
    | some a' =>
      cases hg : g b x with
      | none =>
        simp only [Option.bind_some, Option.map_none, Option.bind_none]
        cases l.foldlM f a' <;> rfl
      | some b' => exact ih a' b'

theorem foldlM_map {f : α → γ → Option α} {g : β → γ → Option β} {φ : α → β}
    (h : ∀ a x, (f a x).map φ = g (φ a) x) (l : List γ) :
    ∀ a : α, (l.foldlM f a).map φ = l.foldlM g (φ a) := by
  induction l with
  | nil => intro a; rfl
  | cons x l ih =>
    intro a
    rw [List.foldlM_cons, List.foldlM_cons, ← h, Option.bind_eq_bind, Option.bind_eq_bind]
    cases f a x with
    | none => rfl
    | some a' => exact ih a'

theorem foldlM_cons_eq_some {f : α → γ → Option α} {x : γ} {l : List γ} {a b : α} :
    (x :: l).foldlM f a = some b ↔ ∃ a', f a x = some a' ∧ l.foldlM f a' = some b := by
  rw [List.foldlM_cons, Option.bind_eq_bind, Option.bind_eq_some_iff]

theorem foldlM_invariant {f : α → γ → Option α} {P : α → Prop}
    (hstep : ∀ {a x b}, P a → f a x = some b → P b) {l : List γ} :
    ∀ {a b : α}, P a → l.foldlM f a = some b → P b := by
  induction l with
  | nil =>
    intro a b ha h
    cases h
    exact ha
  | cons x l ih =>
    intro a b ha h
    obtain ⟨a', hx, hl⟩ := foldlM_cons_eq_some.1 h
    exact ih (hstep ha hx) hl

theorem exists_step_of_foldlM {f : α → γ → Option α} {l : List γ} {x : γ} (hmem : x ∈ l) :
    ∀ {a b : α}, l.foldlM f a = some b → ∃ s s', f s x = some s' := by
  induction l with
  | nil => cases hmem
  | cons y l ih =>
    intro a b h
    obtain ⟨a', hy, hl⟩ := foldlM_cons_eq_some.1 h
    rcases List.mem_cons.1 hmem with rfl | hmem
    · exact ⟨a, a', hy⟩
    · exact ih hmem hl

theorem foldlM_bind (value : γ → Option δ) (merge : β → δ → Option β) (l : List γ) :
    ∀ b : β, l.foldlM (fun b x => (value x).bind (merge b)) b =
      (l.mapM value).bind fun vs => vs.foldlM merge b := by
  induction l with
  | nil => intro b; rfl
  | cons x l ih =>
    intro b
    rw [List.foldlM_cons, List.mapM_cons]
    cases hv : value x with
    | none => rfl
    | some v =>
      simp only [Option.bind_eq_bind, Option.bind_some]
      cases hm : merge b v with
      | none =>
        cases l.mapM value with
        | none => rfl
        | some vs => simp [List.foldlM_cons, hm]
      | some b' =>
        rw [Option.bind_some, ih b']
        cases l.mapM value with
        | none => rfl
        | some vs => simp [List.foldlM_cons, hm]

def mergeWith (merge : β → δ → Option β) (b : β) : Option δ → Option β
  | none => some b
  | some a => merge b a

theorem foldlM_mergeWith (merge : β → δ → Option β) (value : γ → Option δ) (l : List γ) :
    ∀ b : β, (l.map value).foldlM (mergeWith merge) b = (l.filterMap value).foldlM merge b := by
  induction l with
  | nil => intro b; rfl
  | cons x l ih =>
    intro b
    rw [List.map_cons, List.foldlM_cons]
    cases hx : value x with
    | none =>
      rw [List.filterMap_cons_none hx]
      exact ih b
    | some v =>
      rw [List.filterMap_cons_some hx, List.foldlM_cons]
      exact congrArg _ (funext ih)

/-- Items that each need keys of their own, merged into a state that remembers the keys in use. -/
theorem isSome_foldlM_disjoint {κ : Type} (merge : β → δ → Option β) (has : β → κ → Prop)
    (uses : δ → κ → Prop) (ok : δ → Prop)
    (hsome : ∀ b x, (merge b x).isSome ↔ ok x ∧ ∀ k, uses x k → ¬ has b k)
    (hhas : ∀ {b x b'}, merge b x = some b' → ∀ k, has b' k ↔ has b k ∨ uses x k) (l : List δ) :
    ∀ b : β, (l.foldlM merge b).isSome ↔
      (∀ x ∈ l, ok x ∧ ∀ k, uses x k → ¬ has b k) ∧ l.Pairwise fun x y => ∀ k, uses x k → ¬ uses y k := by
  induction l with
  | nil => simp
  | cons x l ih =>
    intro b
    rw [List.foldlM_cons, List.pairwise_cons, List.forall_mem_cons, ← hsome]
    cases hm : merge b x with
    | none => simp
    | some b' =>
      simp only [Option.bind_eq_bind, Option.bind_some, ih, hhas hm, not_or, Option.isSome_some,
        true_and]
      constructor
      · rintro ⟨hall, hpair⟩
        exact ⟨fun y hy => ⟨(hall y hy).1, fun k hk => ((hall y hy).2 k hk).1⟩,
          fun y hy k hx hk => ((hall y hy).2 k hk).2 hx, hpair⟩
      · rintro ⟨hall, hfirst, hpair⟩
        exact ⟨fun y hy => ⟨(hall y hy).1, fun k hk => ⟨(hall y hy).2 k hk,
          fun hx => hfirst y hy k hx hk⟩⟩, hpair⟩

section Once

variable (here : γ → Bool) (merge : β → Option β)

def onceStep (s : Bool × β) (x : γ) : Option (Bool × β) :=
  if here x && !s.1 then (merge s.2).map fun b => (true, b) else some s

def singleStep (s : Bool × β) (x : γ) : Option (Bool × β) :=
  if here x then (if s.1 then none else (merge s.2).map fun b => (true, b)) else some s

theorem foldlM_onceStep_true (l : List γ) (b : β) :
    l.foldlM (onceStep here merge) (true, b) = some (true, b) := by
  induction l with
  | nil => rfl
  | cons x l ih => simpa [List.foldlM_cons, onceStep] using ih

theorem foldlM_onceStep (l : List γ) (b : β) : l.foldlM (onceStep here merge) (false, b) =
    if l.any here then (merge b).map fun b => (true, b) else some (false, b) := by
  induction l with
  | nil => rfl
  | cons x l ih =>
    rw [List.foldlM_cons, onceStep, List.any_cons]
    cases hx : here x with
    | false => simpa using ih
    | true =>
      cases merge b with
      | none => rfl
      | some b' => exact foldlM_onceStep_true here merge l b'

theorem foldlM_singleStep_true (l : List γ) (b : β) :
    l.foldlM (singleStep here merge) (true, b) = if l.any here then none else some (true, b) := by
  induction l with
  | nil => rfl
  | cons x l ih =>
    rw [List.foldlM_cons, singleStep, List.any_cons]
    cases hx : here x with
    | false => simpa using ih
    | true => rfl

theorem foldlM_singleStep (l : List γ) (b : β) : l.foldlM (singleStep here merge) (false, b) =
    if l.any here then
      if l.countP here == 1 then (merge b).map fun b => (true, b) else none
    else some (false, b) := by
  induction l with
  | nil => rfl
  | cons x l ih =>
    rw [List.foldlM_cons, singleStep, List.any_cons]
    cases hx : here x with
    | false => simpa [List.countP_cons, hx] using ih
    | true =>
      cases hm : merge b with
      | none => simp
      | some b' =>
        have hcount : ((x :: l).countP here == 1) = !l.any here := by
          rw [Bool.eq_iff_iff]
          simp [hx, List.countP_eq_zero]
        have hrest := foldlM_singleStep_true here merge l b'
        simp only [hcount, Bool.true_or, if_true, Bool.false_eq_true, if_false]
        cases hany : l.any here with
        | false => exact hrest.trans (by rw [hany]; rfl)
        | true => exact hrest.trans (by rw [hany]; rfl)

end Once

section Moments

variable {f : α → γ → Option α}

def Passes (f : α → γ → Option α) (a : α) (l : List γ) (s : α) : Prop :=
  ∃ l₁, l₁ <+: l ∧ l₁.foldlM f a = some s

/-- The items that a fold takes, with the states in which it takes them. -/
def Takes (f : α → γ → Option α) (a : α) (l : List γ) (s : α) (x : γ) : Prop :=
  ∃ l₁, l₁ ++ [x] <+: l ∧ l₁.foldlM f a = some s

variable {a s : α} {x : γ} {l : List γ}

theorem passes_nil : Passes f a [] s ↔ s = a := by
  constructor
  · rintro ⟨l₁, hpre, h⟩
    cases List.prefix_nil.1 hpre
    cases h
    rfl
  · rintro rfl
    exact ⟨[], List.prefix_rfl, rfl⟩

theorem passes_cons : Passes f a (x :: l) s ↔ s = a ∨ ∃ a', f a x = some a' ∧ Passes f a' l s := by
  constructor
  · rintro ⟨_ | ⟨y, l₁⟩, hpre, h⟩
    · cases h
      exact .inl rfl
    · obtain ⟨rfl, hrest⟩ := List.cons_prefix_cons.1 hpre
      obtain ⟨a', ha', h⟩ := foldlM_cons_eq_some.1 h
      exact .inr ⟨a', ha', l₁, hrest, h⟩
  · rintro (rfl | ⟨a', ha', l₁, hpre, h⟩)
    · exact ⟨[], List.nil_prefix, rfl⟩
    · exact ⟨x :: l₁, List.cons_prefix_cons.2 ⟨rfl, hpre⟩, foldlM_cons_eq_some.2 ⟨a', ha', h⟩⟩

theorem not_takes_nil : ¬ Takes f a [] s x := by
  rintro ⟨l₁, hpre, -⟩
  simp at hpre

theorem takes_cons {x y : γ} :
    Takes f a (x :: l) s y ↔ s = a ∧ y = x ∨ ∃ a', f a x = some a' ∧ Takes f a' l s y := by
  constructor
  · rintro ⟨_ | ⟨z, l₁⟩, hpre, h⟩
    · obtain ⟨rfl, -⟩ := List.cons_prefix_cons.1 hpre
      cases h
      exact .inl ⟨rfl, rfl⟩
    · obtain ⟨rfl, hrest⟩ := List.cons_prefix_cons.1 hpre
      obtain ⟨a', ha', h⟩ := foldlM_cons_eq_some.1 h
      exact .inr ⟨a', ha', l₁, hrest, h⟩
  · rintro (⟨rfl, rfl⟩ | ⟨a', ha', l₁, hpre, h⟩)
    · exact ⟨[], List.cons_prefix_cons.2 ⟨rfl, List.nil_prefix⟩, rfl⟩
    · exact ⟨x :: l₁, List.cons_prefix_cons.2 ⟨rfl, hpre⟩, foldlM_cons_eq_some.2 ⟨a', ha', h⟩⟩

theorem passes_invariant {I : α → Prop} : ∀ {l : List γ} {a s : α},
    (∀ {s x s'}, x ∈ l → I s → f s x = some s' → I s') → I a → Passes f a l s → I s
  | [], a, s, _, ha, h => by
    rw [passes_nil] at h
    rwa [h]
  | x :: l, a, s, hstep, ha, h => by
    obtain rfl | ⟨a', ha', h⟩ := passes_cons.1 h
    · exact ha
    · exact passes_invariant (fun hx => hstep (List.mem_cons_of_mem _ hx))
        (hstep List.mem_cons_self ha ha') h

/-- A property that a step keeps exactly under a condition holds at every moment of a run exactly if the
condition holds at every step. `I` is what holds anyway. -/
theorem forall_passes_iff {I P : α → Prop} {C : α → γ → Prop} : ∀ {l : List γ} {a : α},
    (∀ {s x s'}, x ∈ l → I s → f s x = some s' → I s') →
    (∀ {s x s'}, x ∈ l → I s → P s → f s x = some s' → (P s' ↔ C s x)) →
    (∀ {s x}, f s x = none → C s x) → I a → P a →
    ((∀ s, Passes f a l s → P s) ↔ ∀ s x, Takes f a l s x → C s x)
  | [], a, _, _, _, _, hp => by
    constructor
    · exact fun _ s x htakes => absurd htakes not_takes_nil
    · intro _ s hpasses
      rwa [passes_nil.1 hpasses]
  | x :: l, a, hI, hP, hnone, ha, hp => by
    cases hx : f a x with
    | none =>
      simp only [passes_cons, takes_cons, hx, reduceCtorEq, false_and, exists_false, or_false]
      constructor
      · rintro - s y ⟨rfl, rfl⟩
        exact hnone hx
      · rintro - s rfl
        exact hp
    | some a' =>
      have hiff := hP List.mem_cons_self ha hp hx
      have hrest := forall_passes_iff (l := l) (fun hx => hI (List.mem_cons_of_mem _ hx))
        (fun hx => hP (List.mem_cons_of_mem _ hx)) hnone (hI List.mem_cons_self ha hx)
      constructor
      · intro hall s y htakes
        have ha' : P a' := hall a' (passes_cons.2 (.inr ⟨a', hx, [], List.nil_prefix, rfl⟩))
        obtain ⟨rfl, rfl⟩ | ⟨a₁, ha₁, htakes⟩ := takes_cons.1 htakes
        · exact hiff.1 ha'
        · cases hx.symm.trans ha₁
          exact (hrest ha').1 (fun s hs => hall s (passes_cons.2 (.inr ⟨a', hx, hs⟩))) s y htakes
      · intro hall s hpasses
        have ha' : P a' := hiff.2 (hall a x (takes_cons.2 (.inl ⟨rfl, rfl⟩)))
        obtain rfl | ⟨a₁, ha₁, hpasses⟩ := passes_cons.1 hpasses
        · exact hp
        · cases hx.symm.trans ha₁
          exact (hrest ha').2 (fun s y hs => hall s y (takes_cons.2 (.inr ⟨a', hx, hs⟩))) s hpasses

end Moments

theorem exists_of_mem_mapM {α β : Type} {f : α → Option β} : ∀ {l : List α} {l' : List β} {b : β},
    l.mapM f = some l' → b ∈ l' → ∃ a ∈ l, f a = some b
  | [], l', b, h, hb => by
    cases h
    cases hb
  | a :: l, l', b, h, hb => by
    rw [List.mapM_cons] at h
    obtain ⟨c, hc, h⟩ := Option.bind_eq_some_iff.1 h
    obtain ⟨cs, hcs, heq⟩ := Option.bind_eq_some_iff.1 h
    cases heq
    obtain rfl | hb := List.mem_cons.1 hb
    · exact ⟨a, List.mem_cons_self, hc⟩
    · obtain ⟨a', ha', hfa'⟩ := exists_of_mem_mapM hcs hb
      exact ⟨a', List.mem_cons_of_mem _ ha', hfa'⟩

end OptionFold

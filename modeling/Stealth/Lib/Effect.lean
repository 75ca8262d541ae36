import Mathlib.Data.Nat.Notation

/-!
Computations that can stop early and keep their state when they do. `Ends x s Q E`: from `s` the run ends in
`Q`, or stops in `E`.
-/

namespace Effect

variable {σ ε α β : Type}

def Ends (x : EStateM ε σ α) (s : σ) (Q : α → σ → Prop) (E : ε → σ → Prop) : Prop :=
  match x s with
  | .ok a s' => Q a s'
  | .error e s' => E e s'

variable {Q : α → σ → Prop} {E : ε → σ → Prop} {s : σ} {x : EStateM ε σ α} {s' : σ} {a : α} {e : ε}
  {E' : ε → σ → Prop} {Q' : α → σ → Prop}

theorem ends_of_ok (h : x s = .ok a s') (hQ : Q a s') : Ends x s Q E := by
  rw [Ends, h]
  exact hQ

theorem ends_of_error (h : x s = .error e s') (hE : E e s') : Ends x s Q E := by
  rw [Ends, h]
  exact hE

theorem Ends.of_eq_ok (h : Ends x s Q E) (hx : x s = .ok a s') : Q a s' := by
  rw [Ends, hx] at h
  exact h

theorem Ends.of_eq_error (h : Ends x s Q E) (hx : x s = .error e s') : E e s' := by
  rw [Ends, hx] at h
  exact h

theorem Ends.mono (h : Ends x s Q E) (hQ : ∀ a s', Q a s' → Q' a s') (hE : ∀ e s', E e s' → E' e s') :
    Ends x s Q' E' := by
  cases hx : x s with
  | ok a s' => exact ends_of_ok hx (hQ a s' (h.of_eq_ok hx))
  | error e s' => exact ends_of_error hx (hE e s' (h.of_eq_error hx))

theorem Ends.and (h : Ends x s Q E) (h' : Ends x s Q' E') :
    Ends x s (fun a s' => Q a s' ∧ Q' a s') fun e s' => E e s' ∧ E' e s' := by
  cases hx : x s with
  | ok a s' => exact ends_of_ok hx ⟨h.of_eq_ok hx, h'.of_eq_ok hx⟩
  | error e s' => exact ends_of_error hx ⟨h.of_eq_error hx, h'.of_eq_error hx⟩

@[simp] theorem ends_pure : Ends (pure a : EStateM ε σ α) s Q E ↔ Q a s := Iff.rfl

@[simp] theorem ends_throw : Ends (throw e : EStateM ε σ α) s Q E ↔ E e s := Iff.rfl

@[simp] theorem ends_get {Q : σ → σ → Prop} : Ends (get : EStateM ε σ σ) s Q E ↔ Q s s := Iff.rfl

@[simp] theorem ends_set {Q : PUnit → σ → Prop} :
    Ends (set s' : EStateM ε σ PUnit) s Q E ↔ Q ⟨⟩ s' := Iff.rfl

@[simp] theorem ends_modify {Q : PUnit → σ → Prop} {f : σ → σ} :
    Ends (modify f : EStateM ε σ PUnit) s Q E ↔ Q ⟨⟩ (f s) := Iff.rfl

@[simp] theorem ends_bind {x : EStateM ε σ β} {f : β → EStateM ε σ α} :
    Ends (x >>= f) s Q E ↔ Ends x s (fun b s' => Ends (f b) s' Q E) E := by
  simp only [Ends, bind, EStateM.bind]
  cases x s with
  | ok b s' => rfl
  | error e s' => rfl

@[simp] theorem ends_ite {c : Prop} [Decidable c] {x y : EStateM ε σ α} :
    Ends (if c then x else y) s Q E ↔ (c → Ends x s Q E) ∧ (¬ c → Ends y s Q E) := by
  split
  · next h => exact ⟨fun hx => ⟨fun _ => hx, fun hc => absurd h hc⟩, fun hx => hx.1 h⟩
  · next h => exact ⟨fun hy => ⟨fun hc => absurd hc h, fun _ => hy⟩, fun hy => hy.2 h⟩

/-- The computation keeps the invariant however it ends, and its value has the property. -/
def Keeps (I : σ → Prop) (x : EStateM ε σ α) (P : α → Prop) : Prop :=
  ∀ s, I s → Ends x s (fun a s' => I s' ∧ P a) fun _ => I

section
variable {I : σ → Prop} {P : α → Prop}

theorem keeps_pure {a : α} (ha : P a) : Keeps I (pure a : EStateM ε σ α) P := fun _ hs => ⟨hs, ha⟩

theorem keeps_throw {e : ε} : Keeps I (throw e : EStateM ε σ α) P := fun _ hs => hs

theorem keeps_get : Keeps I (get : EStateM ε σ σ) I := fun _ hs => ⟨hs, hs⟩

theorem keeps_modify {f : σ → σ} (hf : ∀ s, I s → I (f s)) :
    Keeps I (modify f : EStateM ε σ PUnit) fun _ => True := fun s hs => ⟨hf s hs, trivial⟩

variable {f : β → EStateM ε σ α} {R : β → Prop} {x : EStateM ε σ β}

theorem Keeps.bind (hx : Keeps I x R) (hf : ∀ b, R b → Keeps I (f b) P) : Keeps I (x >>= f) P := by
  intro s hs
  rw [ends_bind]
  exact (hx s hs).mono (fun b s' h => hf b h.2 s' h.1) fun _ _ h => h

theorem Keeps.seq (hx : Keeps I x R) (hf : ∀ {b}, Keeps I (f b) P) :
    Keeps I (x >>= f) P := hx.bind fun _ _ => hf

theorem keeps_ite {c : Prop} [Decidable c] {x y : EStateM ε σ α} (hx : c → Keeps I x P) (hy : ¬ c → Keeps I y P) :
    Keeps I (if c then x else y) P := by
  intro s hs
  rw [ends_ite]
  exact ⟨fun hc => hx hc s hs, fun hc => hy hc s hs⟩

end

end Effect

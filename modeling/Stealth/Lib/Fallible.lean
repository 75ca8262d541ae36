import Mathlib.Init

/-! Runs that leave a state when they fail. `Spec Q R`: every result is in `Q` and every failure in `R`. -/

namespace Fallible

universe u v w

variable {ε : Type u} {σ : Type u} {α β γ : Type u}

def Spec (Q : α → Prop) (R : ε → σ → Prop) : Except (ε × σ) α → Prop
  | .ok a => Q a
  | .error e => R e.1 e.2

variable {Q Q' : α → Prop} {R R' : ε → σ → Prop} {x : Except (ε × σ) α}

theorem Spec.mono (h : Spec Q R x) (hQ : ∀ a, Q a → Q' a) (hR : ∀ e s, R e s → R' e s) :
    Spec Q' R' x := by
  cases x with
  | ok a => exact hQ a h
  | error e => exact hR e.1 e.2 h

theorem bind_eq_ok_iff {x : Except ε α} {g : α → Except ε β} {b : β} :
    x >>= g = .ok b ↔ ∃ a, x = .ok a ∧ g a = .ok b := by
  cases x with
  | ok a =>
    refine ⟨fun h => ⟨a, rfl, h⟩, ?_⟩
    rintro ⟨_, ⟨⟩, h⟩
    exact h
  | error e =>
    refine ⟨fun h => (by cases h), ?_⟩
    rintro ⟨_, ⟨⟩, -⟩

theorem eq_ok_of_toOption {x : Except ε α} {a : α} (h : x.toOption = some a) : x = .ok a := by
  cases x with
  | ok b =>
    cases h
    rfl
  | error e => cases h

theorem Spec.bind {P : β → Prop} {g : α → Except (ε × σ) β} (h : Spec Q R x)
    (hg : ∀ a, Q a → Spec P R (g a)) : Spec P R (x >>= g) := by
  cases x with
  | ok a => exact hg a h
  | error e => exact h

theorem Spec.foldlM {f : α → γ → Except (ε × σ) α} (hstep : ∀ a, Q a → ∀ c, Spec Q R (f a c)) :
    ∀ (l : List γ) {a : α}, Q a → Spec Q R (l.foldlM f a)
  | [], _, h => h
  | c :: l, a, h => by
    rw [List.foldlM_cons]
    exact (hstep a h c).bind fun a' ha' => Spec.foldlM hstep l ha'

theorem Spec.of_ok {P : α → Prop} (h : Spec Q R x) (hP : ∀ a, x = .ok a → P a) : Spec P R x := by
  cases x with
  | ok a => exact hP a rfl
  | error e => exact h

theorem Spec.of_error {e : ε} {s : σ} (h : Spec Q R x) (hx : x = .error (e, s)) : R e s := by
  subst hx
  exact h

end Fallible

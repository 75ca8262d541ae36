import Mathlib.Data.List.Nodup

/-!
Rolls: lists whose entries are numbered from one, with tables by number and indexes by key that follow them.
-/

namespace Roll

variable {α β γ : Type}

def Lists (l : List β) (f : β → γ) (table : Nat → Option γ) : Prop :=
  ∀ i, table i = if i = 0 then none else (l[i - 1]?).map f

def Finds (l : List β) (f : β → α) (index : α → Option Nat) : Prop :=
  ∀ k i, index k = some i ↔ 0 < i ∧ (l[i - 1]?).map f = some k

variable {l : List β} {f : β → γ} {table : Nat → Option γ} {i : Nat}

theorem Lists.eq_some (h : Lists l f table) {c : γ} :
    table i = some c ↔ 0 < i ∧ (l[i - 1]?).map f = some c := by
  rw [h i]
  by_cases hi : i = 0
  · simp [hi]
  · simp [hi, Nat.pos_of_ne_zero hi]

theorem Lists.isSome (h : Lists l f table) : (table i).isSome ↔ 0 < i ∧ i ≤ l.length := by
  rw [h i]
  by_cases hi : i = 0
  · simp [hi]
  · simp [hi]
    omega

theorem Finds.inverse {f : β → α} {index : α → Option Nat} {table : Nat → Option α}
    (h : Finds l f index) (ht : Lists l f table) (k : α) (i : Nat) :
    index k = some i ↔ table i = some k :=
  (h k i).trans ht.eq_some.symm

theorem Lists.append {table table' : Nat → Option γ} (h : Lists l f table) (b : β)
    (ht : ∀ i, table' i = if i = l.length + 1 then some (f b) else table i) :
    Lists (l ++ [b]) f table' := by
  intro i
  rw [ht i, h i]
  by_cases hi : i = l.length + 1
  · simp [hi]
  · rw [if_neg hi]
    by_cases h0 : i = 0
    · simp [h0]
    · rw [if_neg h0, if_neg h0]
      rcases Nat.lt_or_ge (i - 1) l.length with hlt | hge
      · rw [List.getElem?_append_left hlt]
      · rw [List.getElem?_eq_none hge, List.getElem?_eq_none (by simp; omega)]

theorem Finds.append [DecidableEq α] {f : β → α} {index index' : α → Option Nat} (h : Finds l f index)
    (b : β) (hnew : index (f b) = none)
    (ht : ∀ k, index' k = if k = f b then some (l.length + 1) else index k) :
    Finds (l ++ [b]) f index' := by
  intro k i
  rw [ht k]
  by_cases hlast : i = l.length + 1
  · subst hlast
    by_cases hk : k = f b
    · simp [hk]
    · rw [if_neg hk, h k]
      simp [Ne.symm hk]
  · have hentry : (l ++ [b])[i - 1]? = l[i - 1]? ∨ i = 0 := by
      rcases Nat.lt_or_ge (i - 1) l.length with hlt | hge
      · exact .inl (List.getElem?_append_left hlt)
      · rcases Nat.eq_zero_or_pos i with h0 | hpos
        · exact .inr h0
        · exact .inl (by rw [List.getElem?_eq_none hge, List.getElem?_eq_none (by simp; omega)])
    rcases hentry with hentry | rfl
    · rw [hentry, ← h k i]
      by_cases hk : k = f b
      · subst hk
        simp [hnew, Ne.symm hlast]
      · rw [if_neg hk]
    · have hzero := h k 0
      by_cases hk : k = f b
      · simp [hk]
      · simp only [if_neg hk, Nat.lt_irrefl, false_and, iff_false] at hzero ⊢
        exact hzero

end Roll

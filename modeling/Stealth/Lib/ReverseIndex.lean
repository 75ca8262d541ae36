import Mathlib.Data.List.Nodup

/-!
Reverse indexes: for a resource the key of the item that uses it and the place in its list. No two items may
use one resource.
-/

namespace ReverseIndex

variable {K O T : Type} {uses : T → List O} {items : K → Option T} {next : O → Option (K × Nat)}

/-- The index has an entry for every use of every stored item, and no other entry. -/
def Indexes (uses : T → List O) (items : K → Option T) (next : O → Option (K × Nat)) : Prop :=
  ∀ o k n, next o = some (k, n) ↔ ∃ t, items k = some t ∧ (uses t)[n]? = some o

theorem Indexes.empty : Indexes uses (fun _ : K => none) fun _ => none :=
  fun _ _ _ => ⟨nofun, fun ⟨_, h, _⟩ => nomatch h⟩

namespace Indexes

variable (h : Indexes uses items next)

include h

theorem place_unique {o : O} {k k' : K} {t t' : T} {n n' : Nat} (ht : items k = some t)
    (hn : (uses t)[n]? = some o) (ht' : items k' = some t') (hn' : (uses t')[n']? = some o) :
    k = k' ∧ n = n' := by
  have hnext := (h o k n).2 ⟨t, ht, hn⟩
  have hnext' := (h o k' n').2 ⟨t', ht', hn'⟩
  exact Prod.mk.inj (Option.some.inj (hnext.symm.trans hnext'))

theorem user_unique {o : O} {k k' : K} {t t' : T} (ht : items k = some t) (ho : o ∈ uses t)
    (ht' : items k' = some t') (ho' : o ∈ uses t') : k = k' := by
  obtain ⟨n, hn⟩ := List.mem_iff_getElem?.1 ho
  obtain ⟨n', hn'⟩ := List.mem_iff_getElem?.1 ho'
  exact (h.place_unique ht hn ht' hn').1

theorem exists_user {o : O} {k : K} {n : Nat} (hnext : next o = some (k, n)) :
    ∃ t, items k = some t ∧ o ∈ uses t := by
  obtain ⟨t, ht, hn⟩ := (h o k n).1 hnext
  exact ⟨t, ht, List.mem_of_getElem? hn⟩

end Indexes

variable [DecidableEq K] [DecidableEq O]

def entered (us : List O) (k : K) (next : O → Option (K × Nat)) (o : O) : Option (K × Nat) :=
  if o ∈ us then some (k, us.idxOf o) else next o

def released (us : List O) (next : O → Option (K × Nat)) (o : O) : Option (K × Nat) :=
  if o ∈ us then none else next o

theorem Indexes.enter (h : Indexes uses items next) {k : K} {t : T} (hk : items k = none)
    (hnodup : (uses t).Nodup) (hfree : ∀ o ∈ uses t, next o = none) :
    Indexes uses (Function.update items k (some t)) (entered (uses t) k next) := by
  intro o k' n
  rw [entered]
  split
  · next hmem =>
    -- nothing but the new item uses the resource
    have hnew : ∀ {k₁ t₁}, items k₁ = some t₁ → o ∉ uses t₁ := by
      intro k₁ t₁ ht₁ ho
      obtain ⟨m, hm⟩ := List.mem_iff_getElem?.1 ho
      have hnext := (h o k₁ m).2 ⟨t₁, ht₁, hm⟩
      rw [hfree o hmem] at hnext
      cases hnext
    constructor
    · intro heq
      cases heq
      exact ⟨t, Function.update_self .., List.getElem?_idxOf hmem⟩
    · rintro ⟨t₁, ht₁, hn⟩
      by_cases hkey : k' = k
      · subst hkey
        rw [Function.update_self] at ht₁
        cases ht₁
        obtain ⟨hlt, hget⟩ := List.getElem?_eq_some_iff.1 hn
        rw [← hget, hnodup.idxOf_getElem n hlt]
      · rw [Function.update_of_ne hkey] at ht₁
        exact absurd (List.mem_of_getElem? hn) (hnew ht₁)
  · next hmem =>
    rw [h o k' n]
    by_cases hkey : k' = k
    · subst hkey
      rw [hk, Function.update_self]
      constructor
      · rintro ⟨t₁, ht₁, -⟩
        cases ht₁
      · rintro ⟨t₁, ht₁, hn⟩
        cases ht₁
        exact absurd (List.mem_of_getElem? hn) hmem
    · rw [Function.update_of_ne hkey]

theorem Indexes.release (h : Indexes uses items next) {k : K} {t : T} (hk : items k = some t) :
    Indexes uses (Function.update items k none) (released (uses t) next) := by
  intro o k' n
  rw [released]
  split
  · next hmem =>
    refine ⟨nofun, ?_⟩
    rintro ⟨t₁, ht₁, hn⟩
    have hne : k' ≠ k := by
      rintro rfl
      rw [Function.update_self] at ht₁
      cases ht₁
    rw [Function.update_of_ne hne] at ht₁
    exact absurd (h.user_unique ht₁ (List.mem_of_getElem? hn) hk hmem) hne
  · next hmem =>
    rw [h o k' n]
    by_cases hkey : k' = k
    · subst hkey
      rw [hk, Function.update_self]
      constructor
      · rintro ⟨t₁, ht₁, hn⟩
        cases ht₁
        exact absurd (List.mem_of_getElem? hn) hmem
      · rintro ⟨t₁, ht₁, -⟩
        cases ht₁
    · rw [Function.update_of_ne hkey]

end ReverseIndex

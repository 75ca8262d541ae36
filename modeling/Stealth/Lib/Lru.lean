import Mathlib.Data.List.Basic

/-! Caches that drop the entry least recently used, and are coherent with a backing store. -/

namespace Lru

variable {κ ν : Type} [DecidableEq κ]

abbrev Cache (κ ν : Type) := List (κ × ν)

def find (c : Cache κ ν) (k : κ) : Option ν := (c.find? fun e => e.1 = k).map Prod.snd

def remove (c : Cache κ ν) (k : κ) : Cache κ ν := c.filter fun e => e.1 ≠ k

def evict (cap : Nat) (c : Cache κ ν) : Cache κ ν := if c.length < cap then c else c.dropLast

def use (cap : Nat) (c : Cache κ ν) (k : κ) (v : ν) : Cache κ ν :=
  (k, v) :: if (find c k).isSome then remove c k else evict cap c

theorem find_cons (k : κ) (v : ν) (c : Cache κ ν) (k' : κ) :
    find ((k, v) :: c) k' = if k = k' then some v else find c k' := by
  rw [find, List.find?_cons]
  by_cases h : k = k' <;> simp [h, find]

@[simp] theorem find_use_self (cap : Nat) (c : Cache κ ν) (k : κ) (v : ν) :
    find (use cap c k v) k = some v := by
  rw [use, find_cons, if_pos rfl]

variable {c : Cache κ ν} {k k' : κ} {v : ν} {cap : Nat} {back : κ → Option ν}

theorem find_remove (c : Cache κ ν) (h : k ≠ k') : find (remove c k) k' = find c k' := by
  induction c with
  | nil => rfl
  | cons e c ih =>
    obtain ⟨k₁, v₁⟩ := e
    rw [remove, List.filter_cons]
    split
    · rw [find_cons, find_cons, ← ih, remove]
    · next hk =>
      obtain rfl : k₁ = k := by simpa using hk
      rw [find_cons, if_neg h, ← ih, remove]

theorem find_of_find_take {n : Nat} (h : find (c.take n) k = some v) : find c k = some v := by
  obtain ⟨e, he, rfl⟩ := Option.map_eq_some_iff.1 h
  rw [find, (List.take_prefix n c).find?_eq_some he]
  rfl

theorem find_of_find_evict (h : find (evict cap c) k = some v) : find c k = some v := by
  rw [evict] at h
  split at h
  · exact h
  · rw [List.dropLast_eq_take] at h
    exact find_of_find_take h

theorem find_of_find_use {v w : ν} (hne : k ≠ k') (h : find (use cap c k v) k' = some w) :
    find c k' = some w := by
  rw [use, find_cons, if_neg hne] at h
  split at h
  · rwa [find_remove c hne] at h
  · exact find_of_find_evict h

def Coherent (c : Cache κ ν) (back : κ → Option ν) : Prop :=
  ∀ k v, find c k = some v → back k = some v

def through (c : Cache κ ν) (back : κ → Option ν) (k : κ) : Option ν := (find c k).or (back k)

theorem Coherent.through_eq (h : Coherent c back) : through c back = back := by
  funext k
  rw [through]
  cases hfind : find c k with
  | none => rfl
  | some v => exact (h k v hfind).symm

theorem Coherent.use (h : Coherent c back) (cap : Nat) (hv : back k = some v) :
    Coherent (use cap c k v) back := by
  intro k' w hw
  by_cases hk : k = k'
  · subst hk
    rw [find_use_self, Option.some.injEq] at hw
    rw [← hw, hv]
  · exact h k' w (find_of_find_use hk hw)

end Lru

import Mathlib.Logic.Function.Basic

/-! Stores of typed keys with write batches. A handle sees the store as it will be after the commit. -/

namespace KeyValue

universe u v

variable {κ : Type u} {V : κ → Type v}

abbrev Disk (V : κ → Type v) := (k : κ) → Option (V k)

abbrev Entry (V : κ → Type v) := (k : κ) × Option (V k)

abbrev Batch (V : κ → Type v) := List (Entry V)

/-- A handle on a store, with a batch if one is open. -/
structure Store (V : κ → Type v) where
  disk : Disk V
  activeBatch : Option (Batch V)

namespace Store

def txnBegin (s : Store V) : Store V := { s with activeBatch := some [] }

def txnAbort (s : Store V) : Store V := { s with activeBatch := none }

end Store

variable [DecidableEq κ]

def scan (k : κ) : Batch V → Option (Option (V k))
  | [] => none
  | ⟨k', v⟩ :: batch => if h : k' = k then some (h ▸ v) else scan k batch

def apply (disk : Disk V) : Batch V → Disk V
  | [] => disk
  | ⟨k, v⟩ :: batch => Function.update (apply disk batch) k v

theorem getD_scan (disk : Disk V) (k : κ) : ∀ batch : Batch V,
    (scan k batch).getD (disk k) = apply disk batch k
  | [] => rfl
  | ⟨k', v⟩ :: batch => by
    rw [scan, apply]
    split
    · next h =>
      subst h
      rw [Function.update_self]
      rfl
    · next h => rw [getD_scan disk k batch, Function.update_of_ne (Ne.symm h)]

theorem apply_update_of_ne (disk : Disk V) {k k' : κ} (hne : k' ≠ k) (v : Option (V k)) :
    ∀ batch : Batch V, apply (Function.update disk k v) batch k' = apply disk batch k'
  | [] => Function.update_of_ne hne ..
  | ⟨k₁, v₁⟩ :: batch => by
    rw [apply, apply]
    by_cases hk : k' = k₁
    · subst hk
      rw [Function.update_self, Function.update_self]
    · rw [Function.update_of_ne hk, Function.update_of_ne hk, apply_update_of_ne disk hne v batch]

namespace Store

variable (s : Store V)

def read (k : κ) : Option (V k) :=
  match s.activeBatch with
  | none => s.disk k
  | some batch => (scan k batch).getD (s.disk k)

def put (k : κ) (v : Option (V k)) : Store V :=
  match s.activeBatch with
  | none => { s with disk := Function.update s.disk k v }
  | some batch => { s with activeBatch := some (⟨k, v⟩ :: batch) }

def putThrough (k : κ) (v : Option (V k)) : Store V := { s with disk := Function.update s.disk k v }

def txnCommit : Store V where
  disk := apply s.disk (s.activeBatch.getD [])
  activeBatch := none

def view : Disk V := apply s.disk (s.activeBatch.getD [])

theorem read_eq (k : κ) : s.read k = s.view k := by
  rw [read, view]
  cases s.activeBatch with
  | none => rfl
  | some batch => exact getD_scan s.disk k batch

@[simp] theorem view_put (k : κ) (v : Option (V k)) : (s.put k v).view = Function.update s.view k v := by
  rw [put, view, view]
  cases h : s.activeBatch with
  | none => rfl
  | some batch => rfl

theorem view_putThrough_of_ne {k k' : κ} (hne : k' ≠ k) (v : Option (V k)) :
    (s.putThrough k v).view k' = s.view k' :=
  apply_update_of_ne s.disk hne v _

variable {s}

theorem disk_put_of_active (h : s.activeBatch.isSome) (k : κ) (v : Option (V k)) :
    (s.put k v).disk = s.disk := by
  obtain ⟨batch, hbatch⟩ := Option.isSome_iff_exists.1 h
  rw [put, hbatch]

theorem active_put (h : s.activeBatch.isSome) (k : κ) (v : Option (V k)) :
    (s.put k v).activeBatch.isSome := by
  obtain ⟨batch, hbatch⟩ := Option.isSome_iff_exists.1 h
  rw [put, hbatch]
  rfl

end Store

end KeyValue

import Mathlib.Algebra.BigOperators.Group.List.Basic
import Mathlib.Data.List.Nodup

/-! Finite ordered maps: sums over their entries, and lookups after loops. -/

namespace Tally

open Std.ExtTreeMap (getElem?_insert getElem?_erase ext_getElem? mem_toList_iff_getElem?_eq_some
  mem_iff_isSome_getElem?)

section Update

variable {α β : Type} [DecidableEq α]

theorem foldl_update_of_not_mem {k : α} : ∀ {l : List (α × β)} {f : α → Option β}, k ∉ l.map Prod.fst →
    l.foldl (fun (f : α → Option β) e => Function.update f e.1 (some e.2)) f k = f k
  | [], _, _ => rfl
  | e :: l, f, hk => by
    rw [List.map_cons, List.mem_cons, not_or] at hk
    rw [List.foldl_cons, foldl_update_of_not_mem hk.2, Function.update_of_ne hk.1]

theorem foldl_update_of_mem {k : α} {v : β} : ∀ {l : List (α × β)} {f : α → Option β},
    (l.map Prod.fst).Nodup → (k, v) ∈ l →
      l.foldl (fun (f : α → Option β) e => Function.update f e.1 (some e.2)) f k = some v
  | e :: l, f, hkeys, hmem => by
    rw [List.map_cons, List.nodup_cons] at hkeys
    rcases List.mem_cons.1 hmem with rfl | hmem
    · rw [List.foldl_cons, foldl_update_of_not_mem hkeys.1, Function.update_self]
    · rw [List.foldl_cons]
      exact foldl_update_of_mem hkeys.2 hmem

end Update

variable {α β γ M : Type} [Ord α] [Std.TransOrd α] [AddCommMonoid M]

def sumOver (f : α → β → M) (m : Std.ExtTreeMap α β compare) : M :=
  (m.toList.map fun e => f e.1 e.2).sum

@[simp] theorem sumOver_empty (f : α → β → M) : sumOver f (∅ : Std.ExtTreeMap α β compare) = 0 := rfl

theorem sumOver_map (f : α → β → M) (g : α → γ → β) (m : Std.ExtTreeMap α γ compare) :
    sumOver f (m.map g) = sumOver (fun k v => f k (g k v)) m := by
  rw [sumOver, sumOver, Std.ExtTreeMap.toList_map, List.map_map]
  rfl

theorem sumOver_filter (f : α → β → M) (p : α → β → Bool) (m : Std.ExtTreeMap α β compare) :
    sumOver f (m.filter p) = sumOver (fun k v => if p k v then f k v else 0) m := by
  rw [sumOver, sumOver, Std.ExtTreeMap.toList_filter]
  generalize m.toList = l
  induction l with
  | nil => rfl
  | cons e l ih =>
    rw [List.map_cons, List.sum_cons, ← ih]
    cases h : p e.1 e.2 with
    | true => simp [h]
    | false => simp [h]

theorem sumOver_add (f g : α → β → M) (m : Std.ExtTreeMap α β compare) :
    sumOver (fun k v => f k v + g k v) m = sumOver f m + sumOver g m :=
  List.sum_map_add

variable {k : α} {m : Std.ExtTreeMap α β compare} {v : β}

theorem mem_of_getElem? (h : m[k]? = some v) : k ∈ m := by
  rw [mem_iff_isSome_getElem?, h]
  rfl

theorem exists_getElem? (h : k ∈ m) : ∃ v, m[k]? = some v :=
  Option.isSome_iff_exists.1 (mem_iff_isSome_getElem?.1 h)

theorem not_mem_of_contains (h : m.contains k = false) : k ∉ m := by
  intro hmem
  rw [Std.ExtTreeMap.contains_iff_mem.2 hmem] at h
  cases h

/-- A loop over the entries that stops at the first key without a property has the entries of all keys
with it, if the keys with it come first. -/
theorem mem_takeWhile_toList {p : α → Bool} (hp : ∀ {a b}, compare a b = .lt → p b = true → p a = true)
    {e : α × β} :
    e ∈ m.toList.takeWhile (fun e => p e.1) ↔ e ∈ m.toList ∧ p e.1 = true := by
  have hsorted : m.toList.Pairwise fun a b => compare a.1 b.1 = .lt := Std.ExtTreeMap.ordered_keys_toList
  generalize m.toList = l at hsorted
  induction l with
  | nil => simp
  | cons a l ih =>
    obtain ⟨hfirst, hrest⟩ := List.pairwise_cons.1 hsorted
    rw [List.takeWhile_cons]
    split
    · next ha =>
      rw [List.mem_cons, List.mem_cons, or_and_right]
      exact or_congr ⟨fun heq => ⟨heq, heq ▸ ha⟩, And.left⟩ (ih hrest)
    · next ha =>
      refine ⟨nofun, ?_⟩
      rintro ⟨hmem, he⟩
      obtain rfl | hmem := List.mem_cons.1 hmem
      · exact absurd he ha
      · exact absurd (hp (hfirst e hmem) he) ha

variable [Std.LawfulEqOrd α]

theorem nodup_keys_toList (m : Std.ExtTreeMap α β compare) : (m.toList.map Prod.fst).Nodup := by
  have hdistinct : m.toList.Pairwise fun a b => ¬ compare a.1 b.1 = .eq :=
    Std.ExtTreeMap.distinct_keys_toList
  refine List.pairwise_map.2 (hdistinct.imp fun hne heq => hne ?_)
  exact Std.LawfulEqCmp.compare_eq_iff_eq.2 heq

theorem nodup_toList (m : Std.ExtTreeMap α β compare) : m.toList.Nodup :=
  (nodup_keys_toList m).of_map Prod.fst

theorem toList_perm_of_getElem? (h : m[k]? = some v) :
    m.toList.Perm ((k, v) :: (m.erase k).toList) := by
  refine (List.perm_ext_iff_of_nodup (nodup_toList m) ?_).2 fun e => ?_
  · refine List.nodup_cons.2 ⟨fun hmem => ?_, nodup_toList _⟩
    rw [mem_toList_iff_getElem?_eq_some, Std.ExtTreeMap.getElem?_erase_self] at hmem
    cases hmem
  · rw [List.mem_cons, mem_toList_iff_getElem?_eq_some,
      mem_toList_iff_getElem?_eq_some, getElem?_erase]
    by_cases hk : k = e.1
    · subst hk
      simp [h, Prod.ext_iff, eq_comm]
    · simp [hk, Prod.ext_iff, Ne.symm hk]

theorem erase_eq_self (h : m[k]? = none) : m.erase k = m := by
  refine ext_getElem? fun a => ?_
  rw [getElem?_erase]
  split
  · next heq => rw [← Std.LawfulEqCmp.compare_eq_iff_eq.1 heq, h]
  · rfl

theorem insert_eq_self (h : m[k]? = some v) : m.insert k v = m := by
  refine ext_getElem? fun a => ?_
  rw [getElem?_insert]
  split
  · next heq => rw [← Std.LawfulEqCmp.compare_eq_iff_eq.1 heq, h]
  · rfl

theorem map_insert (f : α → β → γ) (m : Std.ExtTreeMap α β compare) (k : α) (v : β) :
    (m.insert k v).map f = (m.map f).insert k (f k v) := by
  refine ext_getElem? fun a => ?_
  simp only [Std.ExtTreeMap.getElem?_map, getElem?_insert]
  by_cases hk : k = a
  · subst hk; simp
  · simp [hk]

theorem map_map_of_eq {f : α → β → β} (g : β → γ) (h : ∀ k v, g (f k v) = g v) (m : Std.ExtTreeMap α β compare) :
    ((m.map f).map fun _ v => g v) = m.map fun _ v => g v := by
  refine ext_getElem? fun k => ?_
  simp only [Std.ExtTreeMap.getElem?_map, Option.map_map]
  exact congrArg (Option.map · _) (funext fun v => h k v)

theorem insert_erase (m : Std.ExtTreeMap α β compare) (k : α) (v : β) :
    (m.insert k v).erase k = m.erase k := by
  refine ext_getElem? fun a => ?_
  simp only [getElem?_erase, getElem?_insert]
  split <;> rfl

theorem getElem?_foldl_erase [BEq α] [LawfulBEq α] (k : α) : ∀ (l : List α) (m : Std.ExtTreeMap α β compare),
    (l.foldl (fun m k => m.erase k) m)[k]? = if k ∈ l then none else m[k]?
  | [], m => by simp
  | a :: l, m => by
    rw [List.foldl_cons, getElem?_foldl_erase k l, getElem?_erase]
    by_cases ha : a = k
    · simp [ha]
    · simp [ha, Ne.symm ha]

theorem getElem?_foldl_insert {g : α → β → Option γ} {v : γ} :
    ∀ {l : List (α × β)} {acc : Std.ExtTreeMap α γ compare},
      l.Pairwise (fun a b => ¬ compare a.1 b.1 = .eq) → (∀ e ∈ l, acc[e.1]? = none) →
      ((l.foldl (fun m e => (g e.1 e.2).elim m (m.insert e.1)) acc)[k]? = some v ↔
          acc[k]? = some v ∨ ∃ b, (k, b) ∈ l ∧ g k b = some v)
  | [], acc, _, _ => by simp
  | e :: l, acc, hkeys, hnew => by
    obtain ⟨hhead, htail⟩ := List.pairwise_cons.1 hkeys
    obtain ⟨he, hrest⟩ := List.forall_mem_cons.1 hnew
    rw [List.foldl_cons]
    cases hg : g e.1 e.2 with
    | none =>
      rw [Option.elim_none, getElem?_foldl_insert htail hrest]
      refine or_congr Iff.rfl (exists_congr fun b => and_congr_left fun hb => ?_)
      rw [List.mem_cons, or_iff_right]
      rintro rfl
      rw [hg] at hb
      cases hb
    | some w =>
      rw [Option.elim_some, getElem?_foldl_insert htail fun e' he' => by
        rw [getElem?_insert, if_neg (hhead e' he'), hrest e' he']]
      rw [getElem?_insert]
      by_cases hk : e.1 = k
      · subst hk
        have hnot : ∀ b, (e.1, b) ∉ l := fun b hmem => hhead _ hmem Std.ReflCmp.compare_self
        have hmem : ∀ b, (e.1, b) ∈ e :: l ↔ b = e.2 := by
          intro b
          rw [List.mem_cons, or_iff_left (hnot b), Prod.ext_iff]
          simp
        simp [hmem, hnot, he, hg]
      · have hmem : ∀ b, (k, b) ∈ e :: l ↔ (k, b) ∈ l := by
          intro b
          rw [List.mem_cons, or_iff_right]
          rintro rfl
          exact hk rfl
        simp only [hmem, Std.LawfulEqCmp.compare_eq_iff_eq, hk, if_false]

theorem foldl_update_toList [DecidableEq α] (m : Std.ExtTreeMap α β compare) (f : α → Option β) (k : α) :
    m.toList.foldl (fun (f : α → Option β) e => Function.update f e.1 (some e.2)) f k = m[k]?.or (f k) := by
  cases hk : m[k]? with
  | some v =>
    have hmem : (k, v) ∈ m.toList := mem_toList_iff_getElem?_eq_some.2 hk
    rw [foldl_update_of_mem (nodup_keys_toList m) hmem, Option.some_or]
  | none =>
    have hmem : k ∉ m.toList.map Prod.fst := by
      rintro hmem
      obtain ⟨e, he, rfl⟩ := List.mem_map.1 hmem
      rw [mem_toList_iff_getElem?_eq_some, hk] at he
      cases he
    rw [foldl_update_of_not_mem hmem, Option.none_or]

section Sums

variable (f : α → β → M)

theorem sumOver_of_getElem? {m : Std.ExtTreeMap α β compare} {k : α} {v : β} (h : m[k]? = some v) :
    sumOver f m = f k v + sumOver f (m.erase k) := by
  unfold sumOver
  rw [((toList_perm_of_getElem? h).map _).sum_eq, List.map_cons, List.sum_cons]

theorem sumOver_insert (m : Std.ExtTreeMap α β compare) (k : α) (v : β) :
    sumOver f (m.insert k v) = f k v + sumOver f (m.erase k) := by
  rw [sumOver_of_getElem? f Std.ExtTreeMap.getElem?_insert_self, insert_erase]

theorem sumOver_erase_of_none {m : Std.ExtTreeMap α β compare} {k : α} (h : m[k]? = none) :
    sumOver f (m.erase k) = sumOver f m := by rw [erase_eq_self h]

end Sums

end Tally

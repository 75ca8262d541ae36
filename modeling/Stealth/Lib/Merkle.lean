import Mathlib.Data.List.Nodup
import Mathlib.Data.Nat.Bitwise

/-!
Hash trees that pair the last node of an odd level with itself. Lists without repetitions are told apart by
their roots, if the nodes that occur are told apart by their children.
-/

namespace Merkle

variable {D : Type}

def pairs : List D → List (D × D)
  | [] => []
  | [a] => [(a, a)]
  | a :: b :: rest => (a, b) :: pairs rest

variable (combine : D → D → D)

def level (l : List D) : List D := (pairs l).map fun p => combine p.1 p.2

def root : Nat → List D → Option D
  | 0, l => l.head?
  | _ + 1, [] => none
  | _ + 1, [a] => some a
  | fuel + 1, a :: b :: rest => root fuel (level combine (a :: b :: rest))

def allPairs : Nat → List D → List (D × D)
  | 0, _ => []
  | _ + 1, [] => []
  | _ + 1, [_] => []
  | fuel + 1, a :: b :: rest =>
    pairs (a :: b :: rest) ++ allPairs fuel (level combine (a :: b :: rest))

theorem eq_nil_of_root_eq_none : ∀ {fuel : Nat} {l : List D}, root combine fuel l = none → l = []
  | 0, [], _ => rfl
  | _ + 1, [], _ => rfl
  | 0, _ :: _, h => by cases h
  | _ + 1, [_], h => by cases h
  | fuel + 1, a :: b :: rest, h => by
    rw [root] at h
    have hnil := eq_nil_of_root_eq_none h
    simp [level, pairs] at hnil

theorem length_pairs : ∀ l : List D, (pairs l).length = (l.length + 1) / 2
  | [] => by simp [pairs]
  | [_] => by simp [pairs]
  | _ :: _ :: rest => by
    rw [pairs, List.length_cons, length_pairs rest, List.length_cons, List.length_cons]
    omega

theorem map_fst_pairs_sublist : ∀ l : List D, ((pairs l).map Prod.fst).Sublist l
  | [] => List.Sublist.slnil
  | [a] => List.Sublist.refl [a]
  | a :: b :: rest => ((map_fst_pairs_sublist rest).cons b).cons_cons a

theorem mem_of_mem_pairs : ∀ {l : List D} {p : D × D}, p ∈ pairs l → p.1 ∈ l ∧ p.2 ∈ l
  | [a], p, h => by
    rw [pairs, List.mem_singleton] at h
    subst h
    exact ⟨List.mem_singleton_self a, List.mem_singleton_self a⟩
  | a :: b :: rest, p, h => by
    rcases List.mem_cons.1 h with rfl | h
    · exact ⟨by simp, by simp⟩
    · obtain ⟨h₁, h₂⟩ := mem_of_mem_pairs h
      exact ⟨by simp [h₁], by simp [h₂]⟩

theorem pairs_inj : ∀ {l l' : List D}, l.Nodup → l'.Nodup → pairs l = pairs l' → l = l'
  | [], [], _, _, _ => rfl
  | [a], [b], _, _, h => by
    rw [pairs, pairs, List.cons.injEq, Prod.mk.injEq] at h
    rw [h.1.1]
  | [a], b :: c :: rest, _, hnodup, h => by
    rw [pairs, pairs, List.cons.injEq, Prod.mk.injEq] at h
    exact absurd (h.1.1.symm.trans h.1.2) fun hbc => (List.nodup_cons.1 hnodup).1 (by simp [hbc])
  | a :: b :: rest, [c], hnodup, _, h => by
    rw [pairs, pairs, List.cons.injEq, Prod.mk.injEq] at h
    exact absurd (h.1.1.trans h.1.2.symm) fun hab => (List.nodup_cons.1 hnodup).1 (by simp [hab])
  | a :: b :: rest, c :: d :: rest', hnodup, hnodup', h => by
    rw [pairs, pairs, List.cons.injEq, Prod.mk.injEq] at h
    have hrest := (List.nodup_cons.1 (List.nodup_cons.1 hnodup).2).2
    have hrest' := (List.nodup_cons.1 (List.nodup_cons.1 hnodup').2).2
    rw [h.1.1, h.1.2, pairs_inj hrest hrest' h.2]
  | [], b :: rest, _, _, h => by
    cases rest <;> cases h
  | a :: rest, [], _, _, h => by
    cases rest <;> cases h

section Branches

/-- The place of the sibling in a level; the last node of an odd level is its own sibling. -/
def sibling (n i : Nat) : Nat := min (i ^^^ 1) (n - 1)

def rows : Nat → List D → List D
  | 0, l => l
  | _ + 1, [] => []
  | _ + 1, [a] => [a]
  | fuel + 1, a :: b :: rest => a :: b :: rest ++ rows fuel (level combine (a :: b :: rest))

def branch (d : D) : Nat → List D → Nat → List D
  | 0, _, _ => []
  | _ + 1, [], _ => []
  | _ + 1, [_], _ => []
  | fuel + 1, a :: b :: rest, i =>
    (a :: b :: rest).getD (sibling (a :: b :: rest).length i) d ::
      branch d fuel (level combine (a :: b :: rest)) (i / 2)

def climb (x : D) : List D → Nat → D
  | [], _ => x
  | y :: ys, i => climb (if i % 2 = 1 then combine y x else combine x y) ys (i / 2)

variable {combine}

theorem length_level (l : List D) : (level combine l).length = (l.length + 1) / 2 := by
  rw [level, List.length_map, length_pairs]

theorem length_level_le {fuel : Nat} {a b : D} {rest : List D} (h : (a :: b :: rest).length ≤ fuel + 1 + 1) :
    (level combine (a :: b :: rest)).length ≤ fuel + 1 := by
  rw [length_level]
  simp only [List.length_cons] at h ⊢
  omega

theorem sibling_of_even {n i : Nat} (hi : i % 2 = 0) : sibling n i = min (i + 1) (n - 1) := by
  rw [sibling, Nat.xor_one_of_even (Nat.even_iff.2 hi)]

theorem sibling_of_odd {n i : Nat} (hi : i % 2 = 1) (hn : i < n) : sibling n i = i - 1 := by
  rw [sibling, Nat.xor_one_of_odd (Nat.odd_iff.2 hi)]
  omega

theorem getElem?_pairs : ∀ (l : List D) (k : Nat) (x : D), l[2 * k]? = some x →
    ∃ y, l[min (2 * k + 1) (l.length - 1)]? = some y ∧ (pairs l)[k]? = some (x, y)
  | [a], 0, x, h => by
    cases h
    exact ⟨a, rfl, rfl⟩
  | a :: b :: rest, 0, x, h => by
    cases h
    refine ⟨b, ?_, rfl⟩
    have hmin : min (2 * 0 + 1) ((a :: b :: rest).length - 1) = 1 := by
      rw [List.length_cons, List.length_cons]
      omega
    rw [hmin]
    rfl
  | a :: b :: rest, k + 1, x, h => by
    have hrest : rest[2 * k]? = some x := h
    obtain ⟨y, hy, hpair⟩ := getElem?_pairs rest k x hrest
    have hlt := (List.getElem?_eq_some_iff.1 hrest).1
    refine ⟨y, ?_, hpair⟩
    have hmin : min (2 * (k + 1) + 1) ((a :: b :: rest).length - 1) = min (2 * k + 1) (rest.length - 1) + 2 := by
      rw [List.length_cons, List.length_cons]
      omega
    rw [hmin]
    exact hy

theorem getElem?_level (combine : D → D → D) {l : List D} {k : Nat} {x y : D} (hx : l[2 * k]? = some x)
    (hy : l[min (2 * k + 1) (l.length - 1)]? = some y) : (level combine l)[k]? = some (combine x y) := by
  obtain ⟨y', hy', hpair⟩ := getElem?_pairs l k x hx
  obtain rfl := Option.some.inj (hy.symm.trans hy')
  rw [level, List.getElem?_map, hpair]
  rfl

theorem getElem?_level_sibling {l : List D} {i : Nat} {x : D} (d : D) (hx : l[i]? = some x) :
    (level combine l)[i / 2]? = some (if i % 2 = 1 then combine (l.getD (sibling l.length i) d) x
      else combine x (l.getD (sibling l.length i) d)) := by
  have hlt := (List.getElem?_eq_some_iff.1 hx).1
  have hget : ∀ j < l.length, l[j]? = some (l.getD j d) := by
    intro j hj
    rw [List.getD_eq_getElem?_getD, List.getElem?_eq_getElem hj, Option.getD_some]
  rcases Nat.mod_two_eq_zero_or_one i with hi | hi
  · rw [if_neg (by omega), sibling_of_even hi]
    have hleft : 2 * (i / 2) = i := by omega
    refine getElem?_level combine (hleft.symm ▸ hx) ?_
    rw [hleft]
    exact hget _ (by omega)
  · rw [if_pos hi, sibling_of_odd hi hlt]
    have hleft : 2 * (i / 2) = i - 1 := by omega
    have hright : min (2 * (i / 2) + 1) (l.length - 1) = i := by omega
    refine getElem?_level combine ?_ (hright.symm ▸ hx)
    rw [hleft]
    exact hget _ (by omega)

theorem root_eq_climb (combine : D → D → D) (d : D) : ∀ {fuel : Nat} {l : List D} {i : Nat} {x : D}, l.length ≤ fuel + 1 →
    l[i]? = some x → root combine fuel l = some (climb combine x (branch combine d fuel l i) i)
  | 0, [a], 0, x, _, hx => hx
  | 0, [a], i + 1, x, _, hx => nomatch hx
  | 0, a :: b :: rest, i, x, hlen, _ => by simp at hlen
  | fuel + 1, [a], 0, x, _, hx => hx
  | fuel + 1, [a], i + 1, x, _, hx => nomatch hx
  | fuel + 1, a :: b :: rest, i, x, hlen, hx => by
    rw [root, branch, climb]
    exact root_eq_climb combine d (length_level_le hlen) (getElem?_level_sibling d hx)

theorem getLast?_rows : ∀ {fuel : Nat} {l : List D}, l.length ≤ fuel + 1 →
    (rows combine fuel l).getLast? = root combine fuel l
  | 0, [], _ => rfl
  | 0, [a], _ => rfl
  | 0, a :: b :: rest, hlen => by simp at hlen
  | fuel + 1, [], _ => rfl
  | fuel + 1, [a], _ => rfl
  | fuel + 1, a :: b :: rest, hlen => by
    rw [rows, root, List.getLast?_append, getLast?_rows (length_level_le hlen)]
    cases hroot : root combine fuel (level combine (a :: b :: rest)) with
    | some x => rfl
    | none =>
      have hnil := eq_nil_of_root_eq_none combine hroot
      simp [level, pairs] at hnil

end Branches

section Heights

variable {combine} {P : D → D → Prop} {L : D → Prop}

/-- A node of the given height over leaves in `L`, made of pairs in `P`. -/
inductive At (combine : D → D → D) (P : D → D → Prop) (L : D → Prop) : Nat → D → Prop
  | leaf {x : D} : L x → At combine P L 0 x
  | node {h : Nat} {a b : D} : At combine P L h a → At combine P L h b → P a b →
      At combine P L (h + 1) (combine a b)

theorem at_level {h : Nat} {l : List D} (hl : ∀ x ∈ l, At combine P L h x)
    (hP : ∀ p ∈ pairs l, P p.1 p.2) : ∀ x ∈ level combine l, At combine P L (h + 1) x := by
  intro x hx
  obtain ⟨p, hp, rfl⟩ := List.mem_map.1 hx
  obtain ⟨h₁, h₂⟩ := mem_of_mem_pairs hp
  exact .node (hl _ h₁) (hl _ h₂) (hP p hp)

theorem at_root : ∀ {fuel h : Nat} {l : List D} {x : D}, l.length ≤ fuel + 1 →
    (∀ y ∈ l, At combine P L h y) → (∀ p ∈ allPairs combine fuel l, P p.1 p.2) →
    root combine fuel l = some x → ∃ k, At combine P L (h + k) x ∧ (2 ≤ l.length → 1 ≤ k)
  | 0, h, l, x, hlen, hl, _, hroot =>
    ⟨0, hl x (List.mem_of_mem_head? hroot), fun htwo => by omega⟩
  | fuel + 1, h, [a], x, _, hl, _, hroot => by
    cases hroot
    exact ⟨0, hl a (List.mem_singleton_self a), fun htwo => by simp at htwo⟩
  | fuel + 1, h, a :: b :: rest, x, hlen, hl, hP, hroot => by
    obtain ⟨hpairs, habove⟩ := List.forall_mem_append.1 hP
    obtain ⟨k, hk, -⟩ := at_root (length_level_le hlen) (at_level hl hpairs) habove hroot
    exact ⟨k + 1, by rwa [Nat.add_comm k 1, ← Nat.add_assoc], fun _ => by omega⟩

variable (hcombine : ∀ {a b c d}, P a b → P c d → combine a b = combine c d → a = c ∧ b = d)

include hcombine

theorem nodup_level {l : List D} (hP : ∀ p ∈ pairs l, P p.1 p.2) (hl : l.Nodup) :
    (level combine l).Nodup := by
  have hpairs : (pairs l).Nodup := List.Nodup.of_map _ ((map_fst_pairs_sublist l).nodup hl)
  refine hpairs.map_on fun p hp q hq heq => ?_
  obtain ⟨h₁, h₂⟩ := hcombine (hP p hp) (hP q hq) heq
  exact Prod.ext h₁ h₂

theorem level_inj {l l' : List D} (hP : ∀ p ∈ pairs l, P p.1 p.2) (hP' : ∀ p ∈ pairs l', P p.1 p.2)
    (hl : l.Nodup) (hl' : l'.Nodup) (h : level combine l = level combine l') : l = l' := by
  refine pairs_inj hl hl' ?_
  clear hl hl'
  rw [level, level] at h
  generalize pairs l = v at hP h
  generalize pairs l' = v' at hP' h
  induction v generalizing v' with
  | nil => exact (List.map_eq_nil_iff.1 h.symm).symm
  | cons p v ih =>
    obtain ⟨q, w, rfl, hpq, hvw⟩ := List.map_eq_cons_iff.1 h.symm
    obtain ⟨hp, hv⟩ := List.forall_mem_cons.1 hP
    obtain ⟨hq, hw⟩ := List.forall_mem_cons.1 hP'
    obtain ⟨h₁, h₂⟩ := hcombine hq hp hpq
    rw [ih hv w hw hvw.symm, Prod.ext h₁ h₂]

variable (hleaf : ∀ {x a b}, L x → P a b → x ≠ combine a b)

include hleaf

theorem At.height_unique {h : Nat} {x : D} (hx : At combine P L h x) :
    ∀ {h' : Nat}, At combine P L h' x → h = h' := by
  induction hx with
  | leaf hL =>
    intro h' hx'
    cases hx' with
    | leaf => rfl
    | node _ _ hP => exact absurd rfl (hleaf hL hP)
  | @node h a b _ _ hP iha _ =>
    intro h' hx'
    generalize hy : combine a b = y at hx'
    cases hx' with
    | leaf hL => exact absurd hy.symm (hleaf hL hP)
    | node ha' _ hP' =>
      obtain ⟨rfl, -⟩ := hcombine hP hP' hy
      rw [iha ha']

theorem eq_singleton_of_root {fuel h : Nat} {l : List D} {x : D} (hlen : l.length ≤ fuel + 1)
    (hl : ∀ y ∈ l, At combine P L h y) (hP : ∀ p ∈ allPairs combine fuel l, P p.1 p.2)
    (hroot : root combine fuel l = some x) (hx : At combine P L h x) : l = [x] := by
  obtain ⟨k, hk, htwo⟩ := at_root hlen hl hP hroot
  have hzero := hx.height_unique hcombine hleaf hk
  cases l with
  | nil => cases fuel <;> cases hroot
  | cons a rest =>
    cases rest with
    | nil => cases fuel <;> cases hroot <;> rfl
    | cons b rest =>
      have := htwo (by simp)
      omega

theorem eq_of_root_eq : ∀ {fuel fuel' h : Nat} {l l' : List D} {x : D},
    l.length ≤ fuel + 1 → l'.length ≤ fuel' + 1 →
    (∀ y ∈ l, At combine P L h y) → (∀ y ∈ l', At combine P L h y) → l.Nodup → l'.Nodup →
    (∀ p ∈ allPairs combine fuel l, P p.1 p.2) → (∀ p ∈ allPairs combine fuel' l', P p.1 p.2) →
    root combine fuel l = some x → root combine fuel' l' = some x → l = l'
  | fuel, fuel', h, [], l', x, _, _, _, _, _, _, _, _, hroot, _ => by
    cases fuel <;> cases hroot
  | fuel, fuel', h, [a], l', x, _, hlen', hl, hl', _, _, _, hP', hroot, hroot' => by
    obtain rfl : a = x := by cases fuel <;> cases hroot <;> rfl
    exact (eq_singleton_of_root hcombine hleaf hlen' hl' hP' hroot' (hl a (by simp))).symm
  | fuel, fuel', h, a :: b :: rest, [], x, _, _, _, _, _, _, _, _, _, hroot' => by
    cases fuel' <;> cases hroot'
  | fuel, fuel', h, a :: b :: rest, [c], x, hlen, _, hl, hl', _, _, hP, _, hroot, hroot' => by
    obtain rfl : c = x := by cases fuel' <;> cases hroot' <;> rfl
    exact eq_singleton_of_root hcombine hleaf hlen hl hP hroot (hl' c (by simp))
  | 0, _, _, _ :: _ :: _, _ :: _ :: _, _, hlen, _, _, _, _, _, _, _, _, _ => by simp at hlen
  | _ + 1, 0, _, _ :: _ :: _, _ :: _ :: _, _, _, hlen', _, _, _, _, _, _, _, _ => by simp at hlen'
  | fuel + 1, fuel' + 1, h, a :: b :: rest, c :: d :: rest', x, hlen, hlen', hl, hl', hnodup, hnodup',
      hP, hP', hroot, hroot' => by
      obtain ⟨hpairs, habove⟩ := List.forall_mem_append.1 hP
      obtain ⟨hpairs', habove'⟩ := List.forall_mem_append.1 hP'
      refine level_inj hcombine hpairs hpairs' hnodup hnodup' ?_
      exact eq_of_root_eq (length_level_le hlen) (length_level_le hlen') (at_level hl hpairs)
        (at_level hl' hpairs') (nodup_level hcombine hpairs hnodup)
        (nodup_level hcombine hpairs' hnodup') habove habove' hroot hroot'

end Heights

end Merkle

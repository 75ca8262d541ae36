import Mathlib.Data.List.Nodup

/-!
Indexes of transaction outputs: for an id the place of the transaction and a mark for each output. If every
transaction marks what it spends and no id repeats, no output is spent twice.
-/

namespace Outputs

variable {τ ρ π : Type}

structure Entry (ρ π : Type) where
  pos : ρ
  marks : List π

abbrev Index (τ ρ π : Type) := τ → Option (Entry ρ π)

structure Tx (τ ρ π : Type) where
  id : τ
  pos : ρ
  mark : π
  inputs : List (τ × Nat)
  outputs : Nat

def markOf (ix : Index τ ρ π) (o : τ × Nat) : Option π := (ix o.1).bind fun e => e.marks[o.2]?

def spends (ts : List (Tx τ ρ π)) : List (τ × Nat) := ts.flatMap Tx.inputs

def EarlierInputs (ts : List (Tx τ ρ π)) : Prop :=
  ∀ before t after, ts = before ++ t :: after →
    ∀ o ∈ t.inputs, ∃ u ∈ before, u.id = o.1 ∧ o.2 < u.outputs

variable {ix ix' ix₀ : Index τ ρ π} {q : π} {ts : List (Tx τ ρ π)} {o : τ × Nat} {t : Tx τ ρ π}
  {dirty : τ × Nat → Prop} {id : τ} {e : Entry ρ π} {spent : List (τ × Nat)}

theorem EarlierInputs.concat (h : EarlierInputs ts)
    (ht : ∀ o ∈ t.inputs, ∃ u ∈ ts, u.id = o.1 ∧ o.2 < u.outputs) : EarlierInputs (ts ++ [t]) := by
  intro before u after heq
  rcases List.eq_nil_or_concat after with rfl | ⟨after, v, rfl⟩
  · obtain ⟨rfl, hlast⟩ := List.append_inj' heq rfl
    cases hlast
    exact ht
  · rw [List.concat_eq_append, ← List.cons_append, ← List.append_assoc] at heq
    obtain ⟨rfl, -⟩ := List.append_inj' heq rfl
    exact h before u after rfl

section Agree

variable {free : π → Bool} {fresh : π}

/-- The second index has the transactions of the first. Apart from some outputs, each mark is the one of
the first index, or the fresh one where the first has an unspent output. All outputs left out are unspent in
the first. -/
structure AgreeExcept (free : π → Bool) (fresh : π) (dirty : τ × Nat → Prop) (ix₀ ix : Index τ ρ π) :
    Prop where
  entries : ∀ id, (ix id).map (fun e => (e.pos, e.marks.length)) =
    (ix₀ id).map fun e => (e.pos, e.marks.length)
  marks : ∀ o, ¬ dirty o →
    markOf ix o = markOf ix₀ o ∨ (markOf ix o = some fresh ∧ (markOf ix₀ o).any free)
  unspent : ∀ o, dirty o → (markOf ix₀ o).any free

theorem AgreeExcept.refl (ix : Index τ ρ π) : AgreeExcept free fresh (fun _ => False) ix ix :=
  ⟨fun _ => rfl, fun _ _ => .inl rfl, fun _ h => h.elim⟩

/-- An index that agrees with another has the same marks, under any view of marks that does not tell the
unspent ones of the other from the fresh one. -/
theorem AgreeExcept.map_marks {δ : Type} {ix₀ ix : Index τ ρ π}
    (h : AgreeExcept free fresh (fun _ => False) ix₀ ix) (g : π → δ)
    (hg : ∀ o q, markOf ix₀ o = some q → free q = true → g q = g fresh) (id : τ) :
    (ix id).map (fun e => (e.pos, e.marks.map g)) = (ix₀ id).map fun e => (e.pos, e.marks.map g) := by
  have hentry := h.entries id
  cases hix : ix₀ id with
  | none =>
    rw [hix] at hentry
    rw [Option.map_eq_none_iff.1 hentry]
  | some e₀ =>
    rw [hix] at hentry
    obtain ⟨e, he, heq⟩ := Option.map_eq_some_iff.1 hentry
    obtain ⟨hpos, -⟩ := Prod.mk.inj heq
    rw [he]
    refine congrArg some (Prod.ext hpos (List.ext_getElem? fun i => ?_))
    rw [List.getElem?_map, List.getElem?_map]
    have hmark := h.marks (id, i) not_false
    have hmark₀ := hg (id, i)
    rw [markOf, hix, Option.bind_some] at hmark₀
    rw [markOf, markOf, he, hix, Option.bind_some, Option.bind_some] at hmark
    rcases hmark with hsame | ⟨hset, hfree⟩
    · rw [hsame]
    · obtain ⟨q, hq, hqfree⟩ := (Option.any_eq_true ..).1 hfree
      rw [hset, hq, Option.map_some, Option.map_some, hmark₀ q hq hqfree]

end Agree

variable [DecidableEq τ]

def setMark (ix : Index τ ρ π) (o : τ × Nat) (e : Entry ρ π) (q : π) : Index τ ρ π :=
  Function.update ix o.1 (some { e with marks := e.marks.set o.2 q })

theorem markOf_setMark (he : ix o.1 = some e) (hlt : o.2 < e.marks.length) (p : τ × Nat) :
    markOf (setMark ix o e q) p = if p = o then some q else markOf ix p := by
  by_cases hid : p.1 = o.1
  · rw [markOf, markOf, setMark, hid, Function.update_self, he, Option.bind_some, Option.bind_some]
    by_cases hn : p.2 = o.2
    · rw [if_pos (Prod.ext hid hn), hn, List.getElem?_set_self hlt]
    · rw [if_neg (fun heq => hn (congrArg Prod.snd heq)), List.getElem?_set_ne (Ne.symm hn)]
  · rw [if_neg (fun heq => hid (congrArg Prod.fst heq)), markOf, setMark, Function.update_of_ne hid, markOf]

theorem map_setMark (he : ix o.1 = some e) (q : π) (id : τ) :
    (setMark ix o e q id).map (fun e => (e.pos, e.marks.length)) =
      (ix id).map fun e => (e.pos, e.marks.length) := by
  by_cases hid : id = o.1
  · rw [setMark, hid, Function.update_self, he, Option.map_some, Option.map_some, List.length_set]
  · rw [setMark, Function.update_of_ne hid]

section Steps

variable (free : π → Bool) (fresh : π)

def spend (q : π) (ix : Index τ ρ π) (o : τ × Nat) : Option (Index τ ρ π) :=
  (ix o.1).bind fun e => if e.marks[o.2]?.any free then some (setMark ix o e q) else none

def release (ix : Index τ ρ π) (o : τ × Nat) : Option (Index τ ρ π) :=
  (ix o.1).bind fun e => if o.2 < e.marks.length then some (setMark ix o e fresh) else none

def enter (ix : Index τ ρ π) (t : Tx τ ρ π) : Index τ ρ π :=
  Function.update ix t.id (some ⟨t.pos, List.replicate t.outputs fresh⟩)

def connect (ix : Index τ ρ π) (t : Tx τ ρ π) : Option (Index τ ρ π) :=
  (t.inputs.foldlM (spend free t.mark) ix).map fun ix => enter fresh ix t

end Steps

variable {free : π → Bool} {fresh : π}

theorem spend_some (h : spend free q ix o = some ix') :
    ∃ e, ix o.1 = some e ∧ o.2 < e.marks.length ∧ (markOf ix o).any free ∧ ix' = setMark ix o e q := by
  obtain ⟨e, he, hstep⟩ := Option.bind_eq_some_iff.1 h
  split at hstep
  · next hmark =>
    cases hstep
    obtain ⟨mark, hget, -⟩ := (Option.any_eq_true ..).1 hmark
    exact ⟨e, he, (List.getElem?_eq_some_iff.1 hget).1, by rwa [markOf, he, Option.bind_some], rfl⟩
  · cases hstep

theorem markOf_spend (h : spend free q ix o = some ix') (p : τ × Nat) :
    markOf ix' p = if p = o then some q else markOf ix p := by
  obtain ⟨e, he, hlt, -, rfl⟩ := spend_some h
  exact markOf_setMark he hlt p

theorem markOf_enter (ix : Index τ ρ π) (t : Tx τ ρ π) (p : τ × Nat) : markOf (enter fresh ix t) p =
      if p.1 = t.id then (if p.2 < t.outputs then some fresh else none) else markOf ix p := by
  by_cases hid : p.1 = t.id
  · rw [if_pos hid, markOf, enter, hid, Function.update_self, Option.bind_some, List.getElem?_replicate]
  · rw [if_neg hid, markOf, enter, Function.update_of_ne hid, markOf]

theorem enter_of_ne (ix : Index τ ρ π) (h : id ≠ t.id) : enter fresh ix t id = ix id :=
  Function.update_of_ne h _ _

theorem spend_unspent : ∀ {os : List (τ × Nat)} {ix ix' : Index τ ρ π},
    os.foldlM (spend free q) ix = some ix' → ∀ p, (markOf ix' p).any free → (markOf ix p).any free
  | [], ix, ix', h, p, hp => by
    cases h
    exact hp
  | o :: os, ix, ix', h, p, hp => by
    obtain ⟨ix₁, hstep, hrest⟩ := Option.bind_eq_some_iff.1 h
    have hfree := spend_unspent hrest p hp
    rw [markOf_spend hstep] at hfree
    split at hfree
    · next heq =>
      obtain ⟨e, -, -, hmark, -⟩ := spend_some hstep
      exact heq ▸ hmark
    · exact hfree

theorem unspent_of_spend : ∀ {os : List (τ × Nat)} {ix ix' : Index τ ρ π},
    os.foldlM (spend free q) ix = some ix' → ∀ o ∈ os, (markOf ix o).any free
  | [], _, _, _, _, ho => (nomatch ho)
  | o :: os, ix, ix', h, p, hp => by
    obtain ⟨ix₁, hstep, hrest⟩ := Option.bind_eq_some_iff.1 h
    have hhead : [o].foldlM (spend free q) ix = some ix₁ := by
      rw [List.foldlM_cons, hstep]
      rfl
    rcases List.mem_cons.1 hp with rfl | hp
    · obtain ⟨e, -, -, hmark, -⟩ := spend_some hstep
      exact hmark
    · exact spend_unspent hhead p (unspent_of_spend hrest p hp)

def posOf (ix : Index τ ρ π) (id : τ) : Option ρ := (ix id).map Entry.pos

theorem posOf_spend : ∀ {os : List (τ × Nat)} {ix ix' : Index τ ρ π},
    os.foldlM (spend free q) ix = some ix' → ∀ id, posOf ix' id = posOf ix id
  | [], ix, ix', h, id => by
    cases h
    rfl
  | o :: os, ix, ix', h, id => by
    obtain ⟨ix₁, hstep, hrest⟩ := Option.bind_eq_some_iff.1 h
    obtain ⟨e, he, -, -, rfl⟩ := spend_some hstep
    have hmap := congrArg (Option.map Prod.fst) (map_setMark he q id)
    rw [Option.map_map, Option.map_map] at hmap
    exact (posOf_spend hrest id).trans hmap

theorem posOf_connect : ∀ {ts : List (Tx τ ρ π)} {ix ix' : Index τ ρ π},
    ts.foldlM (connect free fresh) ix = some ix' → ∀ id ∉ ts.map Tx.id, posOf ix' id = posOf ix id
  | [], ix, ix', h, id, _ => by
    cases h
    rfl
  | t :: ts, ix, ix', h, id, hid => by
    obtain ⟨ix₁, hstep, hrest⟩ := Option.bind_eq_some_iff.1 h
    obtain ⟨ix₂, hspent, rfl⟩ := Option.map_eq_some_iff.1 hstep
    rw [List.map_cons, List.mem_cons, not_or] at hid
    rw [posOf_connect hrest id hid.2, ← posOf_spend hspent id, posOf, enter_of_ne ix₂ hid.1, posOf]

theorem connect_unspent (h : connect free fresh ix t = some ix') {p : τ × Nat} (hp : p.1 ≠ t.id)
    (hfree : (markOf ix' p).any free) : (markOf ix p).any free := by
  obtain ⟨ix₁, hspent, rfl⟩ := Option.map_eq_some_iff.1 h
  rw [markOf_enter, if_neg hp] at hfree
  exact spend_unspent hspent p hfree

/-- What an index knows of the transactions that it has seen, and of the outputs they spent. -/
structure Follows (free : π → Bool) (ts : List (Tx τ ρ π)) (spent : List (τ × Nat)) (ix : Index τ ρ π) :
    Prop where
  entered : ∀ o, (markOf ix o).isSome → ∃ t ∈ ts, t.id = o.1 ∧ o.2 < t.outputs
  marked : ∀ o ∈ spent, ∃ q, markOf ix o = some q ∧ free q = false
  distinct : spent.Nodup

theorem Follows.spend (h : Follows free ts spent ix) (hq : free q = false)
    (hstep : spend free q ix o = some ix') :
    Follows free ts (spent ++ [o]) ix' ∧ ∃ t ∈ ts, t.id = o.1 ∧ o.2 < t.outputs := by
  obtain ⟨e, -, -, hmark, -⟩ := spend_some hstep
  obtain ⟨q', hget, hfree⟩ := (Option.any_eq_true ..).1 hmark
  have hbefore : ∃ t ∈ ts, t.id = o.1 ∧ o.2 < t.outputs := h.entered o (by rw [hget]; rfl)
  refine ⟨⟨fun p hp => ?_, fun p hp => ?_, ?_⟩, hbefore⟩
  · rw [markOf_spend hstep] at hp
    split at hp
    · next heq => exact heq ▸ hbefore
    · exact h.entered p hp
  · rw [markOf_spend hstep]
    split
    · exact ⟨q, rfl, hq⟩
    · next hne =>
      rcases List.mem_append.1 hp with hold | hnew
      · exact h.marked p hold
      · exact absurd (List.mem_singleton.1 hnew) hne
  · refine List.nodup_append'.2 ⟨h.distinct, List.nodup_singleton o, fun p hp hpo => ?_⟩
    rw [List.mem_singleton.1 hpo] at hp
    obtain ⟨q, hq, hused⟩ := h.marked o hp
    rw [hget] at hq
    cases hq
    rw [hfree] at hused
    cases hused

theorem Follows.spendAll (hq : free q = false) :
    ∀ {os spent : List (τ × Nat)} {ix ix' : Index τ ρ π}, Follows free ts spent ix →
      os.foldlM (Outputs.spend free q) ix = some ix' →
      Follows free ts (spent ++ os) ix' ∧ ∀ o ∈ os, ∃ t ∈ ts, t.id = o.1 ∧ o.2 < t.outputs
  | [], spent, ix, ix', h, hrun => by
    cases hrun
    rw [List.append_nil]
    exact ⟨h, fun _ ho => (nomatch ho)⟩
  | o :: os, spent, ix, ix', h, hrun => by
    obtain ⟨ix₁, hstep, hrest⟩ := Option.bind_eq_some_iff.1 hrun
    obtain ⟨h₁, hbefore⟩ := h.spend hq hstep
    obtain ⟨h', hothers⟩ := h₁.spendAll hq hrest
    rw [List.append_assoc, List.singleton_append] at h'
    exact ⟨h', List.forall_mem_cons.2 ⟨hbefore, hothers⟩⟩

theorem Follows.enter (h : Follows free ts spent ix) (hnew : ∀ u ∈ ts, u.id ≠ t.id) :
    Follows free (ts ++ [t]) spent (enter fresh ix t) := by
  refine ⟨fun o ho => ?_, fun o ho => ?_, h.distinct⟩
  · rw [markOf_enter] at ho
    split at ho
    · next hid =>
      split at ho
      · next hlt => exact ⟨t, by simp, hid.symm, hlt⟩
      · cases ho
    · obtain ⟨u, hu, hspec⟩ := h.entered o ho
      exact ⟨u, List.mem_append_left _ hu, hspec⟩
  · obtain ⟨q, hq, hused⟩ := h.marked o ho
    obtain ⟨u, hu, huid, -⟩ := h.entered o (by rw [hq]; rfl)
    rw [markOf_enter, if_neg (fun hid => hnew u hu (huid.trans hid))]
    exact ⟨q, hq, hused⟩

theorem Follows.connect (h : Follows free ts (spends ts) ix) (hmark : free t.mark = false)
    (hnew : ∀ u ∈ ts, u.id ≠ t.id) (hrun : connect free fresh ix t = some ix') :
    Follows free (ts ++ [t]) (spends (ts ++ [t])) ix' ∧
      ∀ o ∈ t.inputs, ∃ u ∈ ts, u.id = o.1 ∧ o.2 < u.outputs := by
  obtain ⟨ix₁, hspent, rfl⟩ := Option.map_eq_some_iff.1 hrun
  obtain ⟨h₁, hbefore⟩ := h.spendAll hmark hspent
  refine ⟨?_, hbefore⟩
  rw [spends, List.flatMap_append, List.flatMap_singleton]
  exact h₁.enter hnew

theorem Follows.connectAll :
    ∀ {us ts : List (Tx τ ρ π)} {ix ix' : Index τ ρ π}, Follows free ts (spends ts) ix →
      EarlierInputs ts → (∀ u ∈ us, free u.mark = false) → ((ts ++ us).map Tx.id).Nodup →
      us.foldlM (Outputs.connect free fresh) ix = some ix' →
      Follows free (ts ++ us) (spends (ts ++ us)) ix' ∧ EarlierInputs (ts ++ us)
  | [], ts, ix, ix', h, hearlier, _, _, hrun => by
    cases hrun
    rw [List.append_nil]
    exact ⟨h, hearlier⟩
  | u :: us, ts, ix, ix', h, hearlier, hmarks, hids, hrun => by
    obtain ⟨ix₁, hstep, hrest⟩ := Option.bind_eq_some_iff.1 hrun
    obtain ⟨hu, hus⟩ := List.forall_mem_cons.1 hmarks
    have hnew : ∀ t ∈ ts, t.id ≠ u.id := by
      intro t ht heq
      rw [List.map_append, List.map_cons] at hids
      exact (List.nodup_append'.1 hids).2.2 (List.mem_map_of_mem ht) (by rw [heq]; simp)
    obtain ⟨h₁, hbefore⟩ := h.connect hu hnew hstep
    rw [← List.singleton_append, ← List.append_assoc] at hids ⊢
    exact h₁.connectAll (hearlier.concat hbefore) hus hids hrest

theorem Follows.disjoint (h : Follows free ts (spends ts) ix) (hmark : free t.mark = false)
    (hrun : Outputs.connect free fresh ix t = some ix') : (spends ts).Disjoint t.inputs := by
  obtain ⟨ix₁, hspent, -⟩ := Option.map_eq_some_iff.1 hrun
  exact (List.nodup_append'.1 (h.spendAll hmark hspent).1.distinct).2.2

/-- If a transaction that repeats an id also repeats an input, connected transactions have new ids. -/
theorem Follows.nodup_ids :
    ∀ {us ts : List (Tx τ ρ π)} {ix ix' : Index τ ρ π}, Follows free ts (spends ts) ix →
      (∀ u ∈ us, free u.mark = false) → (ts.map Tx.id).Nodup → (us.map Tx.id).Nodup →
      (∀ t ∈ ts, ∀ u ∈ us, t.id = u.id → ∃ o ∈ t.inputs, o ∈ u.inputs) →
      us.foldlM (Outputs.connect free fresh) ix = some ix' → ((ts ++ us).map Tx.id).Nodup
  | [], ts, ix, ix', _, _, hts, _, _, _ => by rwa [List.append_nil]
  | u :: us, ts, ix, ix', h, hmarks, hts, hus, hrepeat, hrun => by
    obtain ⟨ix₁, hstep, hrest⟩ := Option.bind_eq_some_iff.1 hrun
    obtain ⟨hu, hmarks⟩ := List.forall_mem_cons.1 hmarks
    obtain ⟨huid, hus⟩ := List.nodup_cons.1 hus
    have hnew : ∀ t ∈ ts, t.id ≠ u.id := by
      intro t ht heq
      obtain ⟨o, hot, hou⟩ := hrepeat t ht u List.mem_cons_self heq
      exact h.disjoint hu hstep (List.mem_flatMap.2 ⟨t, ht, hot⟩) hou
    rw [← List.singleton_append, ← List.append_assoc]
    refine (h.connect hu hnew hstep).1.nodup_ids hmarks ?_ hus ?_ hrest
    · rw [List.map_append]
      refine List.nodup_append'.2 ⟨hts, List.nodup_singleton _, fun id hid hidu => ?_⟩
      obtain ⟨t, ht, rfl⟩ := List.mem_map.1 hid
      exact hnew t ht (List.mem_singleton.1 hidu)
    · intro t ht v hv heq
      rcases List.mem_append.1 ht with ht | ht
      · exact hrepeat t ht v (List.mem_cons_of_mem u hv) heq
      · rw [List.mem_singleton.1 ht] at heq
        exact absurd (heq ▸ List.mem_map_of_mem hv) huid

theorem AgreeExcept.spend (h : AgreeExcept free fresh dirty ix₀ ix)
    (hstep : spend free q ix o = some ix') :
    AgreeExcept free fresh (fun p => dirty p ∨ p = o) ix₀ ix' := by
  have hmarkOf := markOf_spend hstep
  obtain ⟨e, he, -, hmark, rfl⟩ := spend_some hstep
  refine ⟨fun id => (map_setMark he q id).trans (h.entries id), fun p hp => ?_, fun p hp => ?_⟩
  · rw [hmarkOf, if_neg fun heq => hp (.inr heq)]
    exact h.marks p fun hd => hp (.inl hd)
  · by_cases hd : dirty p
    · exact h.unspent p hd
    · obtain rfl := hp.resolve_left hd
      rcases h.marks p hd with heq | ⟨-, hfree⟩
      · rwa [← heq]
      · exact hfree

theorem AgreeExcept.spendAll : ∀ {os : List (τ × Nat)} {dirty : τ × Nat → Prop} {ix ix' : Index τ ρ π},
      AgreeExcept free fresh dirty ix₀ ix → os.foldlM (Outputs.spend free q) ix = some ix' →
      AgreeExcept free fresh (fun p => dirty p ∨ p ∈ os) ix₀ ix'
  | [], dirty, ix, ix', h, hrun => by
    cases hrun
    simpa using h
  | o :: os, dirty, ix, ix', h, hrun => by
    obtain ⟨ix₁, hstep, hrest⟩ := Option.bind_eq_some_iff.1 hrun
    have h' := (h.spend hstep).spendAll hrest
    simpa only [List.mem_cons, or_assoc] using h'

theorem AgreeExcept.enter (h : AgreeExcept free fresh dirty ix₀ ix) (hnew : ix₀ t.id = none) :
    AgreeExcept free fresh dirty (enter fresh ix₀ t) (enter fresh ix t) := by
  have hother : ∀ o, dirty o → o.1 ≠ t.id := by
    intro o ho hid
    have hunspent := h.unspent o ho
    rw [markOf, hid, hnew] at hunspent
    cases hunspent
  refine ⟨fun id => ?_, fun o ho => ?_, fun o ho => ?_⟩
  · by_cases hid : id = t.id
    · rw [Outputs.enter, Outputs.enter, hid, Function.update_self, Function.update_self]
    · rw [enter_of_ne ix hid, enter_of_ne ix₀ hid]
      exact h.entries id
  · rw [markOf_enter, markOf_enter]
    split
    · exact .inl rfl
    · exact h.marks o ho
  · rw [markOf_enter, if_neg (hother o ho)]
    exact h.unspent o ho

theorem AgreeExcept.connectAll : ∀ {ts : List (Tx τ ρ π)} {dirty : τ × Nat → Prop} {ix₀ ix ix' : Index τ ρ π},
      AgreeExcept free fresh dirty ix₀ ix → (∀ t ∈ ts, ix₀ t.id = none) → (ts.map Tx.id).Nodup →
      ts.foldlM (Outputs.connect free fresh) ix = some ix' →
      AgreeExcept free fresh (fun p => dirty p ∨ p ∈ spends ts) (ts.foldl (Outputs.enter fresh) ix₀) ix'
  | [], dirty, ix₀, ix, ix', h, _, _, hrun => by
    cases hrun
    simpa [spends] using h
  | t :: ts, dirty, ix₀, ix, ix', h, hnew, hids, hrun => by
    obtain ⟨ix₁, hstep, hrest⟩ := Option.bind_eq_some_iff.1 hrun
    obtain ⟨ix₂, hspent, rfl⟩ := Option.map_eq_some_iff.1 hstep
    obtain ⟨ht, hts⟩ := List.forall_mem_cons.1 hnew
    obtain ⟨hout, hids⟩ := List.nodup_cons.1 hids
    have hfresh : ∀ u ∈ ts, Outputs.enter fresh ix₀ t u.id = none := by
      intro u hu
      rw [enter_of_ne ix₀ fun heq => hout (heq ▸ List.mem_map_of_mem hu)]
      exact hts u hu
    have h' := ((h.spendAll hspent).enter ht).connectAll hfresh hids hrest
    simpa only [spends, List.flatMap_cons, List.foldl_cons, List.mem_append, or_assoc] using h'

theorem AgreeExcept.release (h : AgreeExcept free fresh dirty ix₀ ix) (ho : (markOf ix₀ o).any free) :
    ∃ ix', release fresh ix o = some ix' ∧ AgreeExcept free fresh (fun p => dirty p ∧ p ≠ o) ix₀ ix' := by
  obtain ⟨q, hq, -⟩ := (Option.any_eq_true ..).1 ho
  obtain ⟨e₀, he₀, hmark₀⟩ := Option.bind_eq_some_iff.1 hq
  have hentry := h.entries o.1
  rw [he₀] at hentry
  obtain ⟨e, he, heq⟩ := Option.map_eq_some_iff.1 hentry
  obtain ⟨-, hlen⟩ := Prod.mk.inj heq
  have hlt : o.2 < e.marks.length := hlen ▸ (List.getElem?_eq_some_iff.1 hmark₀).1
  refine ⟨setMark ix o e fresh, by rw [Outputs.release, he, Option.bind_some, if_pos hlt], ?_, ?_, ?_⟩
  · exact fun id => (map_setMark he fresh id).trans (h.entries id)
  · intro p hp
    rw [markOf_setMark he hlt]
    split
    · next heq => exact .inr ⟨rfl, heq ▸ ho⟩
    · next hne => exact h.marks p fun hd => hp ⟨hd, hne⟩
  · exact fun p hp => h.unspent p hp.1

theorem AgreeExcept.releaseAll : ∀ {os : List (τ × Nat)} {dirty : τ × Nat → Prop} {ix : Index τ ρ π},
      AgreeExcept free fresh dirty ix₀ ix → (∀ o ∈ os, (markOf ix₀ o).any free) →
      ∃ ix', os.foldlM (Outputs.release fresh) ix = some ix' ∧
        AgreeExcept free fresh (fun p => dirty p ∧ p ∉ os) ix₀ ix'
  | [], dirty, ix, h, _ => by
    refine ⟨ix, rfl, ?_⟩
    simpa using h
  | o :: os, dirty, ix, h, hos => by
    obtain ⟨ho, hrest⟩ := List.forall_mem_cons.1 hos
    obtain ⟨ix₁, hstep, h₁⟩ := h.release ho
    obtain ⟨ix', hrun, h'⟩ := h₁.releaseAll hrest
    refine ⟨ix', by rw [List.foldlM_cons, hstep]; exact hrun, ?_⟩
    simpa only [List.mem_cons, not_or, and_assoc, ne_eq] using h'

def remove (ix : Index τ ρ π) (id : τ) : Index τ ρ π := Function.update ix id none

theorem removeAll_apply (id : τ) : ∀ (ids : List τ) (ix : Index τ ρ π),
    ids.foldl remove ix id = if id ∈ ids then none else ix id
  | [], ix => by simp
  | i :: ids, ix => by
    rw [List.foldl_cons, removeAll_apply id ids, remove, Function.update_apply]
    by_cases hid : id = i <;> simp [hid]

theorem enterAll_of_not_mem : ∀ {ts : List (Tx τ ρ π)} {ix : Index τ ρ π}, id ∉ ts.map Tx.id →
    ts.foldl (enter fresh) ix id = ix id
  | [], _, _ => rfl
  | t :: ts, ix, hid => by
    rw [List.map_cons, List.mem_cons, not_or] at hid
    rw [List.foldl_cons, enterAll_of_not_mem hid.2, enter_of_ne ix hid.1]

theorem AgreeExcept.remove
    (h : AgreeExcept free fresh (fun _ => False) (ts.foldl (Outputs.enter fresh) ix₀) ix)
    (hnew : ∀ t ∈ ts, ix₀ t.id = none) :
    AgreeExcept free fresh (fun _ => False) ix₀ ((ts.map Tx.id).foldl Outputs.remove ix) := by
  have happly := fun id => removeAll_apply id (ts.map Tx.id) ix
  have hgone : ∀ id ∈ ts.map Tx.id, ix₀ id = none := by
    intro id hid
    obtain ⟨t, ht, rfl⟩ := List.mem_map.1 hid
    exact hnew t ht
  refine ⟨fun id => ?_, fun o _ => ?_, fun _ hd => hd.elim⟩
  · rw [happly]
    split
    · next hid => rw [hgone id hid]
    · next hid => rw [h.entries id, enterAll_of_not_mem hid]
  · have hmarks := h.marks o not_false
    rw [markOf, happly]
    split
    · next hid => exact .inl (by rw [markOf, hgone _ hid])
    · next hid =>
      rw [markOf, markOf, enterAll_of_not_mem hid] at hmarks
      exact hmarks

theorem disconnect_connect (hnew : ∀ t ∈ ts, ix t.id = none) (hids : (ts.map Tx.id).Nodup)
    (hrun : ts.foldlM (connect free fresh) ix = some ix') :
    ∃ ix'', (ts.reverse.flatMap Tx.inputs).foldlM (release fresh) ix' = some ix'' ∧
      AgreeExcept free fresh (fun _ => False) ix ((ts.map Tx.id).foldl remove ix'') := by
  have hconnected := (AgreeExcept.refl ix).connectAll hnew hids hrun
  have hmem : ∀ o, o ∈ spends ts ↔ o ∈ ts.reverse.flatMap Tx.inputs := by
    intro o
    simp [spends]
  obtain ⟨ix'', hrelease, hagree⟩ :=
    hconnected.releaseAll fun o ho => hconnected.unspent o (.inr ((hmem o).2 ho))
  refine ⟨ix'', hrelease, AgreeExcept.remove ⟨hagree.entries, fun o _ => ?_, fun _ hd => hd.elim⟩ hnew⟩
  exact hagree.marks o fun hd => hd.2 ((hmem o).1 (hd.1.resolve_left id))

end Outputs

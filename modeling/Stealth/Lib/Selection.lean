import Mathlib.Data.List.Perm.Subperm

/-! Selection of items that wait for each other. What is taken comes after what it depends on. -/

namespace Selection

/-- How ready items are picked and what is taken, with an accumulator `σ` of the policy. -/
structure Policy (α κ σ : Type) where
  key : α → κ
  pick : σ → List α → Option (α × List α)
  visit : List α → σ → α → Bool × σ
  pick_perm : ∀ {s l a rest}, pick s l = some (a, rest) → (a :: rest).Perm l
  pick_isSome : ∀ s {l}, l ≠ [] → (pick s l).isSome

structure State (α κ σ : Type) where
  ready : List α
  waiting : List (α × List κ)
  taken : List α
  acc : σ

section Selectable

variable {α κ : Type} {deps : α → List κ}

/-- Items that are there at the start and are kept once their dependencies are taken. -/
inductive Selectable (key : α → κ) (deps : α → List κ) (Good : α → Prop) (items : List α) :
    α → Prop
  | intro {a : α} (hmem : a ∈ items) (hgood : Good a) (dep : ∀ d ∈ deps a, α)
      (hkey : ∀ d hd, key (dep d hd) = d)
      (hdeps : ∀ d hd, Selectable key deps Good items (dep d hd)) :
      Selectable key deps Good items a

variable {Good : α → Prop} {key : α → κ} {items : List α} {a : α}

theorem Selectable.mem (h : Selectable key deps Good items a) : a ∈ items ∧ Good a := by
  cases h with
  | intro hmem hgood => exact ⟨hmem, hgood⟩

theorem Selectable.map {β : Type} {key' : β → κ} {deps' : β → List κ} {Good' : β → Prop}
    {items' : List β} (f : α → β) (hf : ∀ a ∈ items, Good a → f a ∈ items' ∧ Good' (f a))
    (hkey : ∀ a, key' (f a) = key a) (hdeps : ∀ a, deps' (f a) = deps a)
    (h : Selectable key deps Good items a) : Selectable key' deps' Good' items' (f a) := by
  induction h with
  | @intro a hmem hgood dep hdep _ ih =>
    obtain ⟨hmem', hgood'⟩ := hf a hmem hgood
    refine .intro hmem' hgood' (fun d hd => f (dep d (hdeps a ▸ hd))) ?_ ?_
    · intro d hd
      rw [hkey, hdep]
    · intro d hd
      exact ih d (hdeps a ▸ hd)

/-- In a list whose items come after what they depend on, all good items are selectable. -/
theorem selectable_of_split {items taken : List α} (hmem : ∀ a ∈ taken, a ∈ items)
    (h : ∀ pre a post, taken = pre ++ a :: post → (∀ d ∈ deps a, d ∈ pre.map key) ∧ Good a) :
    ∀ a ∈ taken, Selectable key deps Good items a := by
  -- strong induction on the number of items before
  have hall : ∀ n pre a post, pre.length < n → taken = pre ++ a :: post →
      Selectable key deps Good items a := by
    intro n
    induction n with
    | zero => intro pre a post hlen; cases hlen
    | succ n ih =>
      intro pre a post hlen heq
      obtain ⟨hdeps, hgood⟩ := h pre a post heq
      have hdep : ∀ d ∈ deps a, ∃ b, key b = d ∧ Selectable key deps Good items b := by
        intro d hd
        obtain ⟨b, hb, hkey⟩ := List.mem_map.1 (hdeps d hd)
        obtain ⟨pre', post', rfl⟩ := List.append_of_mem hb
        refine ⟨b, hkey, ih pre' b (post' ++ a :: post) ?_ (by simp [heq])⟩
        rw [List.length_append, List.length_cons] at hlen
        omega
      choose dep hkey hsel using hdep
      exact .intro (hmem a (by simp [heq])) hgood dep hkey hsel
  intro a ha
  obtain ⟨pre, post, heq⟩ := List.append_of_mem ha
  exact hall _ pre a post (Nat.lt_succ_self _) heq

end Selectable

variable {α κ σ : Type} [DecidableEq κ]

/-- The waiting items with one dependency less: those that became ready, and those that still wait. -/
def release (k : κ) (waiting : List (α × List κ)) : List α × List (α × List κ) :=
  let erased := waiting.map fun w => (w.1, w.2.filter (· ≠ k))
  ((erased.filter (·.2.isEmpty)).map Prod.fst, erased.filter (!·.2.isEmpty))

namespace Policy

variable (p : Policy α κ σ)

def step (st : State α κ σ) : Option (State α κ σ) :=
  (p.pick st.acc st.ready).map fun (a, rest) =>
    let (ok, acc) := p.visit st.taken st.acc a
    if ok then
      let (freed, waiting) := release (p.key a) st.waiting
      ⟨rest ++ freed, waiting, st.taken ++ [a], acc⟩
    else { st with ready := rest, acc := acc }

def run : Nat → State α κ σ → State α κ σ
  | 0, st => st
  | fuel + 1, st =>
    match p.step st with
    | none => st
    | some st' => run fuel st'

end Policy

namespace State

def items (st : State α κ σ) : List α := st.taken ++ st.ready ++ st.waiting.map Prod.fst

def pending (st : State α κ σ) : Nat := st.ready.length + st.waiting.length

end State

theorem release_perm (k : κ) (waiting : List (α × List κ)) :
    ((release k waiting).1 ++ (release k waiting).2.map Prod.fst).Perm (waiting.map Prod.fst) := by
  simp only [release, ← List.map_append]
  refine ((List.filter_append_perm _ _).map Prod.fst).trans (List.Perm.of_eq ?_)
  rw [List.map_map]
  rfl

variable {a : α} {waiting : List (α × List κ)} {k : κ}

theorem mem_release_ready : a ∈ (release k waiting).1 ↔ ∃ ds, (a, ds) ∈ waiting ∧ ∀ d ∈ ds, d = k := by
  simp [release, List.filter_eq_nil_iff]

theorem mem_release_waiting {ds' : List κ} : (a, ds') ∈ (release k waiting).2 ↔
      ds' ≠ [] ∧ ∃ ds, (a, ds) ∈ waiting ∧ ds' = ds.filter (· ≠ k) := by
  simp only [release, List.mem_filter, List.mem_map, Bool.not_eq_true', List.isEmpty_eq_false_iff,
    Prod.mk.injEq, Prod.exists]
  constructor
  · rintro ⟨⟨b, ds, hmem, rfl, rfl⟩, hne⟩
    exact ⟨hne, ds, hmem, rfl⟩
  · rintro ⟨hne, ds, hmem, rfl⟩
    exact ⟨⟨a, ds, hmem, rfl, rfl⟩, hne⟩

namespace Policy

variable {p : Policy α κ σ} {st st' : State α κ σ}

theorem step_cases (h : p.step st = some st') : ∃ a rest acc, (a :: rest).Perm st.ready ∧
      (p.visit st.taken st.acc a = (true, acc) ∧
        st' = ⟨rest ++ (release (p.key a) st.waiting).1, (release (p.key a) st.waiting).2,
          st.taken ++ [a], acc⟩ ∨
      p.visit st.taken st.acc a = (false, acc) ∧ st' = { st with ready := rest, acc := acc }) := by
  obtain ⟨⟨a, rest⟩, hpick, hst'⟩ := Option.map_eq_some_iff.1 h
  refine ⟨a, rest, (p.visit st.taken st.acc a).2, p.pick_perm hpick, ?_⟩
  rcases hvisit : p.visit st.taken st.acc a with ⟨_ | _, acc⟩
  · exact .inr ⟨rfl, by simpa [hvisit] using hst'.symm⟩
  · exact .inl ⟨rfl, by simpa [hvisit] using hst'.symm⟩

theorem step_eq_none (h : p.step st = none) : st.ready = [] := by
  by_contra hne
  have := p.pick_isSome st.acc hne
  rw [Option.isSome_iff_ne_none] at this
  exact this (Option.map_eq_none_iff.1 h)

theorem pending_step (h : p.step st = some st') : st'.pending + 1 = st.pending := by
  obtain ⟨a, rest, acc, hperm, ⟨_, rfl⟩ | ⟨_, rfl⟩⟩ := step_cases h
  · have hready := hperm.length_eq
    have hwait := (release_perm (p.key a) st.waiting).length_eq
    simp only [List.length_append, List.length_map, List.length_cons, State.pending] at *
    omega
  · have hready := hperm.length_eq
    simp only [List.length_cons, State.pending] at *
    omega

theorem run_induction {I : State α κ σ → Prop} (hstep : ∀ {st st'}, I st → p.step st = some st' → I st')
    (fuel : Nat) (h : I st) : I (p.run fuel st) := by
  induction fuel generalizing st with
  | zero => exact h
  | succ fuel ih =>
    rw [run]
    split
    · exact h
    · next st' hst' => exact ih (hstep h hst')

theorem ready_run : ∀ {fuel : Nat} {st : State α κ σ}, st.pending ≤ fuel → (p.run fuel st).ready = []
  | 0, st, h => by
    rw [run]
    exact List.length_eq_zero_iff.1 (by rw [State.pending] at h; omega)
  | fuel + 1, st, h => by
    rw [run]
    split
    · next hnone => exact step_eq_none hnone
    · next st' hst' => exact ready_run (by have := pending_step hst'; omega)

variable {a : α} {ready l rest : List α}

theorem items_take (hperm : (a :: rest).Perm st.ready) (k : κ) (acc : σ) :
    (State.mk (rest ++ (release k st.waiting).1) (release k st.waiting).2 (st.taken ++ [a]) acc).items.Perm
      st.items := by
  have heq : st.taken ++ [a] ++ (rest ++ (release k st.waiting).1) ++ (release k st.waiting).2.map Prod.fst =
      st.taken ++ (a :: rest) ++ ((release k st.waiting).1 ++ (release k st.waiting).2.map Prod.fst) := by simp
  rw [State.items, heq]
  exact (hperm.append_left _).append (release_perm _ _)

theorem items_step (h : p.step st = some st') : st'.items.Subperm st.items := by
  obtain ⟨a, rest, acc, hperm, ⟨_, rfl⟩ | ⟨_, rfl⟩⟩ := step_cases h
  · exact (items_take hperm (p.key a) acc).subperm
  · refine (List.Sublist.subperm ?_).trans ((hperm.append_left _).append_right _).subperm
    exact ((List.sublist_cons_self a rest).append_left _).append_right _

theorem items_run (p : Policy α κ σ) (fuel : Nat) (st : State α κ σ) :
    (p.run fuel st).items.Subperm st.items :=
  run_induction (I := fun st' => st'.items.Subperm st.items)
    (fun hsub hstep => (items_step hstep).trans hsub) fuel (List.Subperm.refl _)

theorem taken_run_subperm (p : Policy α κ σ) (fuel : Nat) (st : State α κ σ) :
    (p.run fuel st).taken.Subperm st.items := by
  refine (List.Sublist.subperm ?_).trans (items_run p fuel st)
  rw [State.items, List.append_assoc]
  exact List.sublist_append_left _ _

section Dependencies

variable {deps : α → List κ}

/-- A ready item has its dependencies taken; a waiting one still has to see those it waits for. -/
structure Tracks (p : Policy α κ σ) (deps : α → List κ) (st : State α κ σ) : Prop where
  ready : ∀ a ∈ st.ready, ∀ d ∈ deps a, d ∈ st.taken.map p.key
  waiting : ∀ w ∈ st.waiting, w.2 ≠ [] ∧
    ∀ d ∈ deps w.1, d ∈ st.taken.map p.key ∨ d ∈ w.2
  untaken : ∀ w ∈ st.waiting, ∀ d ∈ w.2, d ∈ deps w.1 ∧ d ∉ st.taken.map p.key

theorem Tracks.step (ht : Tracks p deps st) (h : p.step st = some st') : Tracks p deps st' := by
  obtain ⟨a, rest, acc, hperm, ⟨_, rfl⟩ | ⟨_, rfl⟩⟩ := step_cases h
  · have hgrow : ∀ {d}, d ∈ st.taken.map p.key → d ∈ (st.taken ++ [a]).map p.key := by
      intro d hd
      rw [List.map_append]
      exact List.mem_append_left _ hd
    have hself : p.key a ∈ (st.taken ++ [a]).map p.key := by simp
    constructor
    · intro b hb d hd
      rcases List.mem_append.1 hb with hb | hb
      · exact hgrow (ht.ready b (hperm.subset (List.mem_cons_of_mem a hb)) d hd)
      · obtain ⟨ds, hw, hall⟩ := mem_release_ready.1 hb
        rcases (ht.waiting _ hw).2 d hd with htaken | hds
        · exact hgrow htaken
        · rw [hall d hds]
          exact hself
    · rintro ⟨b, ds'⟩ hw'
      obtain ⟨hne, ds, hw, rfl⟩ := mem_release_waiting.1 hw'
      refine ⟨hne, fun d hd => ?_⟩
      rcases (ht.waiting _ hw).2 d hd with htaken | hds
      · exact .inl (hgrow htaken)
      · by_cases heq : d = p.key a
        · exact .inl (heq ▸ hself)
        · exact .inr (by simpa using ⟨hds, heq⟩)
    · rintro ⟨b, ds'⟩ hw' d hd
      obtain ⟨-, ds, hw, rfl⟩ := mem_release_waiting.1 hw'
      obtain ⟨hds, hneq⟩ : d ∈ ds ∧ d ≠ p.key a := by simpa using hd
      obtain ⟨hdep, huntaken⟩ := ht.untaken _ hw d hds
      refine ⟨hdep, ?_⟩
      rw [List.map_append, List.mem_append, not_or]
      exact ⟨huntaken, by simpa using hneq⟩
  · exact ⟨fun b hb => ht.ready b (hperm.subset (List.mem_cons_of_mem a hb)), ht.waiting, ht.untaken⟩

omit [DecidableEq κ] in
/-- A waiting item waits for something that is not taken. -/
theorem Tracks.not_waiting (ht : Tracks p deps st) (hdeps : ∀ d ∈ deps a, d ∈ st.taken.map p.key) :
    a ∉ st.waiting.map Prod.fst := by
  intro hwaiting
  obtain ⟨w, hw, rfl⟩ := List.mem_map.1 hwaiting
  obtain ⟨d, hd⟩ := List.exists_mem_of_ne_nil _ (ht.waiting w hw).1
  obtain ⟨hdep, huntaken⟩ := ht.untaken w hw d hd
  exact huntaken (hdeps d hdep)

/-- Every taken item was visited with exactly the items before it taken. -/
def Visited (P : List α → α → Prop) (st : State α κ σ) : Prop :=
  ∀ pre a post, st.taken = pre ++ a :: post → P pre a

variable {Inv : List α → σ → Prop} {P : List α → α → Prop} {Good : α → Prop}

theorem Visited.step (hv : Visited P st) (ht : Tracks p deps st)
    (hvisit : ∀ {taken s a acc}, (∀ d ∈ deps a, d ∈ taken.map p.key) →
      p.visit taken s a = (true, acc) → P taken a)
    (h : p.step st = some st') : Visited P st' := by
  obtain ⟨a, rest, acc, hperm, ⟨hok, rfl⟩ | ⟨_, rfl⟩⟩ := step_cases h
  · intro pre b post heq
    rcases List.append_eq_append_iff.1 heq with ⟨l, rfl, hl⟩ | ⟨l, hl, hpost⟩
    · cases l with
      | nil =>
        obtain ⟨rfl, rfl⟩ : a = b ∧ post = [] := by simpa using hl
        rw [List.append_nil]
        exact hvisit (ht.ready a (hperm.subset List.mem_cons_self)) hok
      | cons c l => cases l <;> cases hl
    · cases l with
      | nil =>
        obtain ⟨rfl, rfl⟩ : b = a ∧ post = [] := by simpa using hpost
        rw [← List.append_nil pre, ← hl]
        exact hvisit (ht.ready b (hperm.subset List.mem_cons_self)) hok
      | cons c l =>
        obtain ⟨rfl, rfl⟩ : b = c ∧ post = l ++ [a] := by simpa using hpost
        exact hv pre b l hl
  · exact hv

/-- What the policy takes satisfies what a visit checks, after the items before it. -/
theorem taken_run (ht : Tracks p deps st) (htaken : st.taken = [])
    (hvisit : ∀ {taken s a acc}, (∀ d ∈ deps a, d ∈ taken.map p.key) →
      p.visit taken s a = (true, acc) → P taken a)
    (fuel : Nat) :
    ∀ pre a post, (p.run fuel st).taken = pre ++ a :: post → P pre a := by
  refine (run_induction (I := fun st => Tracks p deps st ∧ Visited P st)
    (fun hI hstep => ⟨hI.1.step hstep, hI.2.step hI.1 hvisit hstep⟩) fuel ⟨ht, ?_⟩).2
  intro pre a post heq
  rw [htaken] at heq
  cases pre <;> cases heq

def Keeps (p : Policy α κ σ) (Inv : List α → σ → Prop) : Prop :=
  ∀ {taken s a ok s'}, Inv taken s → p.visit taken s a = (ok, s') →
    Inv (if ok then taken ++ [a] else taken) s'

theorem Keeps.step (hkeeps : Keeps p Inv) (hinv : Inv st.taken st.acc) (h : p.step st = some st') :
    Inv st'.taken st'.acc := by
  obtain ⟨a, rest, acc, -, ⟨hok, rfl⟩ | ⟨hno, rfl⟩⟩ := step_cases h
  · exact hkeeps hinv hok
  · exact hkeeps hinv hno

theorem good_mem_items {items : List α} (hgood : ∀ a ∈ items, Good a → a ∈ st.items)
    (ht : Tracks p deps st) (hsub : st.items.Subperm items) (hinv : Inv st.taken st.acc)
    (hvisit : ∀ {taken s a acc}, Inv taken s → (taken ++ [a]).Subperm items → Good a →
      (∀ d ∈ deps a, d ∈ taken.map p.key) → p.visit taken s a ≠ (false, acc))
    (h : p.step st = some st') : ∀ a ∈ items, Good a → a ∈ st'.items := by
  intro b hb hbgood
  have hmem := hgood b hb hbgood
  obtain ⟨a, rest, acc, hperm, ⟨_, rfl⟩ | ⟨hno, rfl⟩⟩ := step_cases h
  · exact (items_take hperm (p.key a) acc).mem_iff.2 hmem
  · have htaken : (st.taken ++ [a]).Subperm items := by
      refine (List.Sublist.subperm ?_).trans
        (((hperm.append_left st.taken).append_right (st.waiting.map Prod.fst)).subperm.trans hsub)
      rw [List.append_assoc]
      exact List.Sublist.append_left (by simp) _
    simp only [State.items, List.mem_append] at hmem ⊢
    rw [← hperm.mem_iff, List.mem_cons] at hmem
    rcases hmem with (hmem | rfl | hmem) | hmem
    · exact .inl (.inl hmem)
    · exact absurd hno (hvisit hinv htaken hbgood (ht.ready b (hperm.subset List.mem_cons_self)))
    · exact .inl (.inr hmem)
    · exact .inr hmem

theorem mem_taken_run (ht : Tracks p deps st) (hkeeps : Keeps p Inv) (hinv : Inv st.taken st.acc)
    (hvisit : ∀ {taken s a acc}, Inv taken s → (taken ++ [a]).Subperm st.items → Good a →
      (∀ d ∈ deps a, d ∈ taken.map p.key) → p.visit taken s a ≠ (false, acc))
    {fuel : Nat} (hfuel : st.pending ≤ fuel) {a : α} (ha : Selectable p.key deps Good st.items a) :
    a ∈ (p.run fuel st).taken := by
  obtain ⟨ht', -, -, hitems⟩ := run_induction
    (I := fun st' => Tracks p deps st' ∧ st'.items.Subperm st.items ∧ Inv st'.taken st'.acc ∧
      ∀ a ∈ st.items, Good a → a ∈ st'.items)
    (fun ⟨ht, hsub, hinv, hgood⟩ hstep => ⟨ht.step hstep, (items_step hstep).trans hsub,
      hkeeps.step hinv hstep, good_mem_items hgood ht hsub hinv hvisit hstep⟩) fuel
    ⟨ht, List.Subperm.refl _, hinv, fun _ h _ => h⟩
  induction ha with
  | intro hmem hgood dep hkey hdeps ih =>
    have hin := hitems _ hmem hgood
    rw [State.items, ready_run hfuel, List.append_nil, List.mem_append] at hin
    -- what it could wait for is selectable and has been taken
    exact hin.resolve_right (ht'.not_waiting fun d hd => List.mem_map.2 ⟨_, ih d hd, hkey d hd⟩)

end Dependencies

/-- The items pass one after the other. -/
def Passes (visit : List α → σ → α → Bool × σ) : List α → σ → List α → Prop
  | _, _, [] => True
  | taken, s, a :: l => ∃ s', visit taken s a = (true, s') ∧ Passes visit (taken ++ [a]) s' l

/-- What is taken passes in its order, also without the visits in between that refuse an item, if these leave an
accumulator that passes the same items. -/
theorem passes_run {R : σ → σ → Prop} (hsame : ∀ {taken s t a ok s'}, R s t → p.visit taken s a = (ok, s') →
      ∃ t', p.visit taken t a = (ok, t') ∧ R s' t' ∧ (ok = false → R s' t)) :
    ∀ (fuel : Nat) {st : State α κ σ} {t : σ}, R st.acc t →
      ∃ l, (p.run fuel st).taken = st.taken ++ l ∧ Passes p.visit st.taken t l
  | 0, st, _, _ => ⟨[], (List.append_nil _).symm, trivial⟩
  | fuel + 1, st, t, h => by
    rw [run]
    split
    · exact ⟨[], (List.append_nil _).symm, trivial⟩
    · next st' hst' =>
      obtain ⟨a, rest, acc, -, ⟨hok, heq⟩ | ⟨hno, rfl⟩⟩ := step_cases hst'
      · obtain ⟨t', ht', hR, -⟩ := hsame h hok
        have hacc : R st'.acc t' := heq ▸ hR
        obtain ⟨l, htaken, hl⟩ := passes_run hsame fuel hacc
        subst heq
        exact ⟨a :: l, by rw [htaken, List.append_assoc]; rfl, t', ht', hl⟩
      · obtain ⟨-, -, -, hR⟩ := hsame h hno
        exact passes_run hsame fuel (hR rfl)

theorem prefix_run (fuel : Nat) : st.taken <+: (p.run fuel st).taken := by
  refine run_induction (I := fun st' => st.taken <+: st'.taken) (fun hpre hstep => ?_) fuel List.prefix_rfl
  obtain ⟨a, rest, acc, -, ⟨-, rfl⟩ | ⟨-, rfl⟩⟩ := step_cases hstep
  · exact hpre.trans (List.prefix_append ..)
  · exact hpre

open Classical in
/-- Pick the first item of a list that is ready. -/
noncomputable def follow (l ready : List α) : Option (α × List α) :=
  ((l ++ ready).find? (· ∈ ready)).map fun a => (a, ready.erase a)

theorem follow_perm (h : follow l ready = some (a, rest)) : (a :: rest).Perm ready := by
  classical
  obtain ⟨b, hfind, heq⟩ := Option.map_eq_some_iff.1 h
  cases heq
  exact (List.perm_cons_erase (by simpa using List.find?_some hfind)).symm

theorem follow_isSome (l : List α) (h : ready ≠ []) : (follow l ready).isSome := by
  classical
  obtain ⟨a, ha⟩ := List.exists_mem_of_ne_nil _ h
  rw [follow, Option.isSome_map, List.find?_isSome]
  exact ⟨a, List.mem_append_right _ ha, decide_eq_true ha⟩

theorem follow_eq {taken todo ready : List α} (htaken : ∀ b ∈ taken, b ∉ ready) (ha : a ∈ ready) :
    ∃ rest, follow (taken ++ a :: todo) ready = some (a, rest) := by
  classical
  refine ⟨ready.erase a, ?_⟩
  rw [follow, List.append_assoc, List.find?_append, List.find?_eq_none.2 fun b hb => by simpa using htaken b hb,
    Option.none_or, List.cons_append]
  simp [ha]

/-- The policy that follows a list takes it, if its items pass one after the other. -/
theorem Passes.prefix_run {deps : α → List κ} (hl : l.Nodup)
    (hdeps : ∀ {taken s a acc}, a ∈ l → p.visit taken s a = (true, acc) → ∀ d ∈ deps a, d ∈ taken.map p.key)
    (hpick : ∀ s ready, p.pick s ready = follow l ready) :
    ∀ (todo : List α) {fuel : Nat} {st : State α κ σ}, st.taken ++ todo = l → Passes p.visit st.taken st.acc todo →
      Tracks p deps st → st.items.Nodup → (∀ a ∈ todo, a ∈ st.items) → st.pending ≤ fuel →
      l <+: (p.run fuel st).taken
  | [], fuel, st, heq, _, _, _, _, _ => by
    rw [← heq, List.append_nil]
    exact Policy.prefix_run fuel
  | a :: todo, fuel, st, heq, ⟨s', hvisit, hrest⟩, ht, hnodup, hmem, hfuel => by
    have hal : a ∈ l := heq ▸ List.mem_append_right _ List.mem_cons_self
    have hready : a ∈ st.ready := by
      have hitem := hmem a List.mem_cons_self
      rw [State.items, List.append_assoc, List.mem_append, List.mem_append] at hitem
      rcases hitem with htaken | hready | hwaiting
      · rw [← heq] at hl
        exact absurd rfl ((List.nodup_append.1 hl).2.2 a htaken a List.mem_cons_self)
      · exact hready
      · exact absurd hwaiting (ht.not_waiting (hdeps hal hvisit))
    have hapart : ∀ b ∈ st.taken, b ∉ st.ready := by
      rw [State.items, List.append_assoc] at hnodup
      exact fun b hb hb' => (List.nodup_append.1 hnodup).2.2 b hb b (List.mem_append_left _ hb') rfl
    obtain ⟨rest, hfollow⟩ := @follow_eq _ a st.taken todo st.ready hapart hready
    rw [heq, ← hpick st.acc] at hfollow
    obtain ⟨st', hst', htake⟩ : ∃ st', p.step st = some st' ∧ st' =
        ⟨rest ++ (release (p.key a) st.waiting).1, (release (p.key a) st.waiting).2, st.taken ++ [a], s'⟩ :=
      ⟨_, by simp [step, hfollow, hvisit], rfl⟩
    have hitems : st'.items.Perm st.items := htake ▸ items_take (p.pick_perm hfollow) (p.key a) s'
    have hpending := pending_step hst'
    cases fuel with
    | zero => omega
    | succ fuel =>
      rw [run, hst']
      refine Passes.prefix_run hl hdeps hpick todo ?_ ?_ (ht.step hst') (hitems.nodup_iff.2 hnodup)
        (fun b hb => hitems.mem_iff.2 (hmem b (List.mem_cons_of_mem a hb))) (by omega)
      · rw [htake, ← heq, List.append_assoc]
        rfl
      · rw [htake]
        exact hrest

end Policy

end Selection

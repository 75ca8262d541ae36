import Mathlib.Data.Nat.Notation

/-!
Fuelled `while` loops whose body can fail: invariants, loops that run in step, and loops that are driven by
a clock.
-/

namespace Loop

variable {σ τ ε δ : Type}

def whileLoop (cond : σ → Bool) (body : σ → Except ε σ) : Nat → σ → Except ε σ
  | 0, s => .ok s
  | fuel + 1, s =>
    if cond s then
      match body s with
      | .error e => .error e
      | .ok s' => whileLoop cond body fuel s'
    else .ok s

section
variable {cond : σ → Bool} {body : σ → Except ε σ}

theorem whileLoop_of_not {s : σ} (h : cond s = false) (fuel : Nat) : whileLoop cond body fuel s = .ok s := by
  cases fuel <;> simp [whileLoop, h]

theorem whileLoop_step {s s' : σ} (h : cond s = true) (hb : body s = .ok s') (fuel : Nat) :
    whileLoop cond body (fuel + 1) s = whileLoop cond body fuel s' := by
  simp [whileLoop, h, hb]

theorem whileLoop_error {s : σ} {e : ε} (h : cond s = true) (hb : body s = .error e) (fuel : Nat) :
    whileLoop cond body (fuel + 1) s = .error e := by
  simp [whileLoop, h, hb]

end

/-- Both results are errors related by `E`, or both are states related by `R`. -/
def ResultRel (E : ε → δ → Prop) (R : σ → τ → Prop) : Except ε σ → Except δ τ → Prop
  | .ok s, .ok t => R s t
  | .error e, .error d => E e d
  | _, _ => False

variable {a : Except ε σ} {R : σ → τ → Prop} {I : σ → Prop} {E : ε → δ → Prop} {t s : σ}
  {b : Except δ τ}

theorem ResultRel.cases (h : ResultRel E R a b) : (∃ e d, a = .error e ∧ b = .error d ∧ E e d) ∨
      ∃ s t, a = .ok s ∧ b = .ok t ∧ R s t := by
  cases a with
  | error e => cases b with
    | error d => exact .inl ⟨e, d, rfl, rfl, h⟩
    | ok t => exact h.elim
  | ok s => cases b with
    | error d => exact h.elim
    | ok t => exact .inr ⟨s, t, rfl, rfl, h⟩

theorem ResultRel.refl {E : ε → ε → Prop} {R : σ → σ → Prop} (hE : ∀ e, E e e) (hR : ∀ s, R s s)
    (a : Except ε σ) : ResultRel E R a a := by
  cases a with
  | error e => exact hE e
  | ok s => exact hR s

theorem ResultRel.symm {E : ε → ε → Prop} {R : σ → σ → Prop} (hE : ∀ e d, E e d → E d e)
    (hR : ∀ s t, R s t → R t s) {a b : Except ε σ} (h : ResultRel E R a b) : ResultRel E R b a := by
  obtain ⟨e, d, rfl, rfl, h⟩ | ⟨s, t, rfl, rfl, h⟩ := h.cases
  · exact hE e d h
  · exact hR s t h

theorem ResultRel.trans {E : ε → ε → Prop} {R : σ → σ → Prop}
    (hE : ∀ e d f, E e d → E d f → E e f) (hR : ∀ s t u, R s t → R t u → R s u)
    {a b c : Except ε σ} (h : ResultRel E R a b) (h' : ResultRel E R b c) : ResultRel E R a c := by
  obtain ⟨e, d, rfl, rfl, h⟩ | ⟨s, t, rfl, rfl, h⟩ := h.cases
  · cases c with
    | error f => exact hE e d f h h'
    | ok u => exact h'.elim
  · cases c with
    | error f => exact h'.elim
    | ok u => exact hR s t u h h'

theorem ResultRel.mono {R R' : σ → τ → Prop} (hR : ∀ s t, R s t → R' s t) (h : ResultRel E R a b) :
    ResultRel E R' a b := by
  obtain ⟨e, d, rfl, rfl, h⟩ | ⟨s, t, rfl, rfl, h⟩ := h.cases
  · exact h
  · exact hR s t h

theorem whileLoop_sim {c₁ : σ → Bool} {c₂ : τ → Bool} {b₁ : σ → Except ε σ} {b₂ : τ → Except δ τ}
    (hc : ∀ s t, R s t → c₁ s = c₂ t) (hb : ∀ s t, R s t → c₁ s = true → ResultRel E R (b₁ s) (b₂ t)) :
    ∀ fuel s t, R s t → ResultRel E R (whileLoop c₁ b₁ fuel s) (whileLoop c₂ b₂ fuel t)
  | 0, _, _, hR => hR
  | fuel + 1, s, t, hR => by
    have hcond := hc s t hR
    cases h₁ : c₁ s with
    | false =>
      rw [whileLoop_of_not h₁, whileLoop_of_not (hcond ▸ h₁)]
      exact hR
    | true =>
      have h₂ : c₂ t = true := hcond ▸ h₁
      obtain ⟨e, d, r₁, r₂, h⟩ | ⟨s', t', r₁, r₂, h⟩ := (hb s t hR h₁).cases
      · rw [whileLoop_error h₁ r₁, whileLoop_error h₂ r₂]
        exact h
      · rw [whileLoop_step h₁ r₁, whileLoop_step h₂ r₂]
        exact whileLoop_sim hc hb fuel s' t' h

/-- The states on which the body runs, the last of which may be the one where it fails. -/
def visited (cond : σ → Bool) (body : σ → Except ε σ) : Nat → σ → List σ
  | 0, _ => []
  | fuel + 1, s =>
    if cond s then
      match body s with
      | .error _ => [s]
      | .ok s' => s :: visited cond body fuel s'
    else []

/-- The invariant rule with a ghost value that every iteration updates from the state it starts in. -/
theorem whileLoop_ghost {V : Type} {cond : σ → Bool} {body : σ → Except ε σ} {I : V → σ → Prop}
    {E : V → ε → Prop} (update : V → σ → V)
    (hok : ∀ v s s', I v s → cond s = true → body s = .ok s' → I (update v s) s')
    (herr : ∀ v s e, I v s → cond s = true → body s = .error e → E (update v s) e) : ∀ fuel v s, I v s →
      (∀ t, whileLoop cond body fuel s = .ok t → I ((visited cond body fuel s).foldl update v) t) ∧
      (∀ e, whileLoop cond body fuel s = .error e → E ((visited cond body fuel s).foldl update v) e)
  | 0, v, s, hI => by
    refine ⟨fun t h => ?_, fun e h => ?_⟩
    · cases h
      exact hI
    · cases h
  | fuel + 1, v, s, hI => by
    cases hc : cond s with
    | false =>
      rw [whileLoop_of_not hc, visited, if_neg (by rw [hc]; exact Bool.false_ne_true)]
      refine ⟨fun t h => ?_, fun e h => ?_⟩
      · cases h
        exact hI
      · cases h
    | true =>
      rw [visited, if_pos hc]
      cases hb : body s with
      | error e =>
        rw [whileLoop_error hc hb]
        refine ⟨fun t h => ?_, fun e' h => ?_⟩
        · cases h
        · cases h
          exact herr v s e hI hc hb
      | ok s' =>
        rw [whileLoop_step hc hb]
        exact whileLoop_ghost update hok herr fuel (update v s) s' (hok v s s' hI hc hb)

theorem whileLoop_invariant {cond : σ → Bool} {body : σ → Except ε σ} {E : ε → Prop}
    (hok : ∀ s s', I s → cond s = true → body s = .ok s' → I s')
    (herr : ∀ s e, I s → cond s = true → body s = .error e → E e) (fuel : Nat) (s : σ) (hI : I s) :
    (∀ t, whileLoop cond body fuel s = .ok t → I t) ∧ (∀ e, whileLoop cond body fuel s = .error e → E e) :=
  whileLoop_ghost (I := fun _ : Unit => I) (E := fun _ => E) (fun _ _ => ()) (fun _ => hok) (fun _ => herr) fuel () s hI

/-- Run the body a fixed number of times, stopping at the first error. -/
def iterateE (body : σ → Except ε σ) : Nat → σ → Except ε σ
  | 0, s => .ok s
  | n + 1, s =>
    match body s with
    | .error e => .error e
    | .ok s' => iterateE body n s'

theorem iterateE_add (body : σ → Except ε σ) (n : Nat) : ∀ (m : Nat) (s : σ), iterateE body (m + n) s =
      match iterateE body m s with
      | .error e => .error e
      | .ok t => iterateE body n t
  | 0, s => by simp only [Nat.zero_add, iterateE]
  | m + 1, s => by
    rw [Nat.succ_add]
    simp only [iterateE]
    cases body s with
    | error e => rfl
    | ok s' => exact iterateE_add body n m s'

theorem iterateE_add_of_ok {body : σ → Except ε σ} {m : Nat} (h : iterateE body m s = .ok t) (n : Nat) :
    iterateE body (m + n) s = iterateE body n t := by
  rw [iterateE_add, h]

theorem iterateE_succ_ok {body : σ → Except ε σ} {n : Nat} (h : iterateE body (n + 1) s = .ok t) :
    ∃ s', body s = .ok s' ∧ iterateE body n s' = .ok t := by
  simp only [iterateE] at h
  cases hb : body s with
  | error e => rw [hb] at h; cases h
  | ok s' => rw [hb] at h; exact ⟨s', rfl, h⟩

theorem iterateE_invariant {body : σ → Except ε σ} (hstep : ∀ s s', I s → body s = .ok s' → I s') :
    ∀ (n : Nat) (s t : σ), I s → iterateE body n s = .ok t → I t
  | 0, s, t, hI, h => by cases h; exact hI
  | n + 1, s, t, hI, h => by
    obtain ⟨s', hb, h'⟩ := iterateE_succ_ok h
    exact iterateE_invariant hstep n s' t (hstep s s' hI hb) h'

/-- A body that succeeds wherever an invariant holds can be iterated any number of times. -/
theorem iterateE_total {body : σ → Except ε σ} (hstep : ∀ s, I s → ∃ s', body s = .ok s' ∧ I s') :
    ∀ (n : Nat) (s : σ), I s → ∃ t, iterateE body n s = .ok t ∧ I t
  | 0, s, hI => ⟨s, rfl, hI⟩
  | n + 1, s, hI => by
    obtain ⟨s', hb, hI'⟩ := hstep s hI
    obtain ⟨t, ht, hIt⟩ := iterateE_total hstep n s' hI'
    exact ⟨t, by simp only [iterateE, hb, ht], hIt⟩

section
variable {κ : Type} {g : κ → Bool} {tick : κ → κ}

def ticks (guard : κ → Bool) (tick : κ → κ) : Nat → κ → Nat
  | 0, _ => 0
  | fuel + 1, k => if guard k then ticks guard tick fuel (tick k) + 1 else 0

/-- A loop whose guard reads a clock that its body advances iterates its body that often. -/
theorem whileLoop_eq_iterateE {cond : σ → Bool} {body : σ → Except ε σ} {P : σ → Prop}
    (g : κ → Bool) (tick : κ → κ) (clock : σ → κ) (hcond : ∀ s, cond s = g (clock s))
    (hbody : ∀ s s', P s → body s = .ok s' → P s' ∧ clock s' = tick (clock s)) : ∀ (fuel : Nat) (s : σ), P s →
      whileLoop cond body fuel s = iterateE body (ticks g tick fuel (clock s)) s
  | 0, _, _ => rfl
  | fuel + 1, s, hP => by
    cases hg : g (clock s) with
    | false =>
      rw [whileLoop_of_not ((hcond s).trans hg)]
      simp [ticks, hg, iterateE]
    | true =>
      simp only [ticks, hg, if_true, iterateE]
      cases hb : body s with
      | error e => rw [whileLoop_error ((hcond s).trans hg) hb]
      | ok s' =>
        obtain ⟨hP', hclock⟩ := hbody s s' hP hb
        rw [whileLoop_step ((hcond s).trans hg) hb, ← hclock]
        exact whileLoop_eq_iterateE g tick clock hcond hbody fuel s' hP'

/-- A measure that drops with every tick bounds the ticks and makes the fuel irrelevant. -/
theorem ticks_of_measure {μ : κ → Nat} (hμ : ∀ k, g k = true → μ (tick k) < μ k) :
    ∀ (fuel : Nat) (k : κ), μ k < fuel →
      ticks g tick fuel k ≤ μ k ∧ ∀ fuel', μ k < fuel' →
        ticks g tick fuel' k = ticks g tick fuel k
  | 0, _, h => absurd h (Nat.not_lt_zero _)
  | fuel + 1, k, h => by
    cases hg : g k with
    | false =>
      refine ⟨by simp [ticks, hg], fun fuel' _ => ?_⟩
      cases fuel' <;> simp [ticks, hg]
    | true =>
      have hlt := hμ k hg
      obtain ⟨hle, heq⟩ := ticks_of_measure hμ fuel (tick k) (by omega)
      refine ⟨by simp only [ticks, hg, if_true]; omega, fun fuel' h' => ?_⟩
      obtain ⟨f, rfl⟩ := Nat.exists_eq_add_of_le' (Nat.lt_of_le_of_lt (Nat.zero_le _) h')
      simp only [ticks, hg, if_true]
      rw [heq f (by omega)]

end

end Loop

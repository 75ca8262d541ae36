import Stealth.Qpos.Operations

/-! What the operations of a block leave alone. -/

namespace Stealth.QPRegistry

variable {r r' : QPRegistry} {nID : Nat} {s : QPStaker}

/-- The registered stakers of `r` are registered in `r'`, with the same misses and qualification. -/
def KeepsStakers (r r' : QPRegistry) : Prop :=
  ∀ nID s, r.getStakerInternal nID = some s →
    ∃ s', r'.getStakerInternal nID = some s' ∧
      s'.nBlocksMissed = s.nBlocksMissed ∧ s'.fQualified = s.fQualified

theorem KeepsStakers.refl (r : QPRegistry) : KeepsStakers r r :=
  fun _ s h => ⟨s, h, rfl, rfl⟩

theorem KeepsStakers.trans {r'' : QPRegistry} (h : KeepsStakers r r')
    (h' : KeepsStakers r' r'') : KeepsStakers r r'' := by
  intro nID s hs
  obtain ⟨s', hs', hm, hq⟩ := h nID s hs
  obtain ⟨s'', hs'', hm', hq'⟩ := h' nID s' hs'
  exact ⟨s'', hs'', hm'.trans hm, hq'.trans hq⟩

theorem getStakerInternal_eq_some : r.getStakerInternal nID = some s ↔
      (0 < nID ∧ nID ≤ r.nIDCounter) ∧ r.mapStakers[nID]? = some s := by
  unfold getStakerInternal
  split
  · next h => simp [h]
  · next h => simp [h]

theorem keepsStakers_putStaker {s' : QPStaker}
    (hs : r.mapStakers[nID]? = some s) (hm : s'.nBlocksMissed = s.nBlocksMissed)
    (hq : s'.fQualified = s.fQualified) : KeepsStakers r (r.putStaker nID s') := by
  intro id t ht
  obtain ⟨hid, hmap⟩ := getStakerInternal_eq_some.1 ht
  by_cases h : nID = id
  · subst h
    rw [hs] at hmap
    cases hmap
    exact ⟨s', getStakerInternal_eq_some.2 ⟨hid, by simp [putStaker]⟩, hm, hq⟩
  · refine ⟨t, getStakerInternal_eq_some.2 ⟨hid, ?_⟩, rfl, rfl⟩
    simp [putStaker, getElem?_insert, h, hmap]

theorem keepsStakers_of_eq (hs : r'.mapStakers = r.mapStakers)
    (hn : r'.nIDCounter = r.nIDCounter) : KeepsStakers r r' := by
  intro nID s h
  refine ⟨s, ?_, rfl, rfl⟩
  rw [getStakerInternal_eq_some] at h ⊢
  rwa [hs, hn]

def IdsInOrder (r : QPRegistry) : Prop :=
  ∀ nID s, r.mapStakers[nID]? = some s → 0 < nID ∧ nID ≤ r.nIDCounter

theorem IdsInOrder.putStaker {n : Nat} {t : QPStaker} (h : IdsInOrder r)
    (hn : 0 < n ∧ n ≤ r.nIDCounter) : IdsInOrder (r.putStaker n t) := by
  intro nID s hs
  simp only [QPRegistry.putStaker, getElem?_insert,
    Std.LawfulEqCmp.compare_eq_iff_eq] at hs
  split at hs
  · next heq => subst heq; exact hn
  · exact h nID s hs

/-- The corrections at a fork change stakers only: they clear docked blocks and reinstate the
disqualified. -/
theorem crossFork_eq (env : QPEnv) (nFork : Fork) (r : QPRegistry) : ∃ f : Nat → QPStaker → QPStaker,
      r.crossFork env nFork = { r with mapStakers := r.mapStakers.map f } ∧
      ∀ n s, f n s = s ∨ f n s = s.resetDocked ∨
        s.isDisqualified = true ∧ f n s = (s.requalify true).resetDocked := by
  have hself : r.mapStakers.map (fun _ s => s) = r.mapStakers :=
    ext_getElem? fun _ => by simp
  rw [crossFork]
  split
  · split
    · exact ⟨_, rfl, fun _ _ => .inr (.inl rfl)⟩
    · split
      · refine ⟨_, rfl, fun _ s => .inr ?_⟩
        split
        · next hq => exact .inr ⟨hq, rfl⟩
        · exact .inl rfl
      · exact ⟨fun _ s => s, by rw [hself], fun _ _ => .inl rfl⟩
  · exact ⟨fun _ s => s, by rw [hself], fun _ _ => .inl rfl⟩

/-- What every operation leaves alone. -/
structure OpsFrame (r r' : QPRegistry) : Prop where
  queue : r'.queue = r.queue
  queuePrev : r'.queuePrev = r.queuePrev
  produced : r'.fCurrentBlockWasProduced = r.fCurrentBlockWasProduced
  prevProduced : r'.fPrevBlockWasProduced = r.fPrevBlockWasProduced
  height : r'.nBlockHeight = r.nBlockHeight
  hash : r'.hashBlock = r.hashBlock
  powerPrev : r'.powerRoundPrev = r.powerRoundPrev
  powerCurrent : r'.powerRoundCurrent = r.powerRoundCurrent
  replay : r'.nHeightExitedReplay = r.nHeightExitedReplay
  snapshot : r'.hashBlockLastSnapshot = r.hashBlockLastSnapshot
  stakers : KeepsStakers r r'
  ids : IdsInOrder r → IdsInOrder r'

theorem OpsFrame.refl (r : QPRegistry) : OpsFrame r r :=
  ⟨rfl, rfl, rfl, rfl, rfl, rfl, rfl, rfl, rfl, rfl, .refl r, id⟩

theorem OpsFrame.trans {r'' : QPRegistry} (h : OpsFrame r r') (h' : OpsFrame r' r'') : OpsFrame r r'' where
  queue := h'.queue.trans h.queue
  queuePrev := h'.queuePrev.trans h.queuePrev
  produced := h'.produced.trans h.produced
  prevProduced := h'.prevProduced.trans h.prevProduced
  height := h'.height.trans h.height
  hash := h'.hash.trans h.hash
  powerPrev := h'.powerPrev.trans h.powerPrev
  powerCurrent := h'.powerCurrent.trans h.powerCurrent
  replay := h'.replay.trans h.replay
  snapshot := h'.snapshot.trans h.snapshot
  stakers := h.stakers.trans h'.stakers
  ids := h'.ids ∘ h.ids

theorem OpsFrame.of_accounts (h : AccountsOnly r r') : OpsFrame r r' := by
  have hs : r'.mapStakers = r.mapStakers := by rw [h]
  have hn : r'.nIDCounter = r.nIDCounter := by rw [h]
  refine ⟨?_, ?_, ?_, ?_, ?_, ?_, ?_, ?_, ?_, ?_, keepsStakers_of_eq hs hn, fun hi => ?_⟩
  iterate 10 rw [h]
  exact fun nID s hget => hn ▸ hi nID s (hs ▸ hget)

theorem opsFrame_addStaker (r : QPRegistry) (s : QPStaker) :
    OpsFrame r ({ r with nIDCounter := r.nIDCounter + 1 }.putStaker (r.nIDCounter + 1) s) := by
  refine ⟨rfl, rfl, rfl, rfl, rfl, rfl, rfl, rfl, rfl, rfl, fun id t ht => ?_, fun hi => ?_⟩
  · obtain ⟨hid, hmap⟩ := getStakerInternal_eq_some.1 ht
    have hne : r.nIDCounter + 1 ≠ id := by omega
    refine ⟨t, getStakerInternal_eq_some.2 ⟨⟨hid.1, Nat.le_succ_of_le hid.2⟩, ?_⟩, rfl, rfl⟩
    simp [putStaker, getElem?_insert, hne, hmap]
  · refine IdsInOrder.putStaker (fun nID t ht => ?_) ⟨Nat.succ_pos _, Nat.le_refl _⟩
    exact ⟨(hi nID t ht).1, Nat.le_succ_of_le (hi nID t ht).2⟩

theorem OpStep.opsFrame (h : OpStep r r') : OpsFrame r r' := by
  cases h with
  | account h => exact .of_accounts h.accountsOnly
  | names aliases owners lookup =>
    exact ⟨rfl, rfl, rfl, rfl, rfl, rfl, rfl, rfl, rfl, rfl, keepsStakers_of_eq rfl rfl, fun hi => hi⟩
  | edit hs h =>
    refine ⟨rfl, rfl, rfl, rfl, rfl, rfl, rfl, rfl, rfl, rfl, keepsStakers_putStaker hs ?_ ?_,
      fun hi => hi.putStaker (hi _ _ hs)⟩
    · rw [h]
    · rw [h]
  | add h => exact opsFrame_addStaker r _

theorem OpSteps.opsFrame (h : OpSteps r r') : OpsFrame r r' :=
  h.rule .refl (fun _ _ _ => .trans) fun _ _ => OpStep.opsFrame

theorem opsFrame_applyOp (env : QPEnv) (now : Int) (pindex : CBlockIndex) (r : QPRegistry)
    (deet : QPTxDetails) : Either (OpsFrame r) (r.applyOp env now pindex deet) :=
  (opSteps_applyOp env now pindex r deet).imp fun _ => OpSteps.opsFrame

theorem opsFrame_applyBlockOps (env : QPEnv) (now : Int) (fJustCheck : Bool) (pindex : CBlockIndex)
    (r : QPRegistry) : (∀ r', r.applyBlockOps env now fJustCheck pindex = .ok r' → OpsFrame r r') ∧
      (∀ e, r.applyBlockOps env now fJustCheck pindex = .error e → OpsFrame r e.1) :=
  (opSteps_applyBlockOps env now fJustCheck pindex r).imp (fun h r' hr' => (h r' hr').opsFrame)
    fun h e he => (h e he).opsFrame

end Stealth.QPRegistry

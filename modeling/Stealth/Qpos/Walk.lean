import Stealth.Qpos.Missed

/-! What one update of the registry can do, and rules that carry a property over an advance. -/

namespace Stealth.QPRegistry

variable {P : QPRegistry → Prop} {r r' : QPRegistry} {env : QPEnv} {p b : CBlockIndex} {nTime : UInt32}
  {x y : QPRegistry × Nat}

theorem disqualifyStakerIfNecessary_cases (env : QPEnv) {s : QPStaker} (t : QPStaker) {nID : Nat}
    (hs : r.getStakerInternal nID = some s) : r.disqualifyStakerIfNecessary env nID t = r ∨
      r.disqualifyStakerIfNecessary env nID t = r.putStaker nID s.disqualify := by
  unfold disqualifyStakerIfNecessary
  split
  · exact .inl rfl
  · split
    · rw [hs]
      dsimp only
      split
      · exact .inl rfl
      · exact .inr rfl
    · exact .inl rfl

/-- A produced block changes balances and its own staker, which before `XST_FORKREINSTATE` may also
be disqualified. -/
theorem stakerProducedBlock_cases {nReward : Int} (h : r.stakerProducedBlock env b nReward = some r') :
    ∃ s s' balances, r.getStakerInternal b.nStakerID = some s ∧ s.isDisqualified = false ∧
      (s' = s.producedBlock b.hashBlock nReward r.fPrevBlockWasProduced ∨
        getFork env.fTestNet r.nBlockHeight < .reinstate ∧
          s' = (s.producedBlock b.hashBlock nReward r.fPrevBlockWasProduced).disqualify) ∧
      r' = { (((r.pushPower b.nStakerID s true).putStaker b.nStakerID s').recordSlot true).setProduced
        true with mapBalances := balances } := by
  unfold stakerProducedBlock at h
  cases hs : r.getStakerInternal b.nStakerID with
  | none => simp only [hs, reduceCtorEq] at h
  | some s =>
    simp only [hs] at h
    split at h
    · cases h
    · next hq =>
      set s₁ := s.producedBlock b.hashBlock nReward r.fPrevBlockWasProduced
      set r₁ := (r.pushPower b.nStakerID s true).putStaker b.nStakerID s₁
      have hshare : ∀ (c : Prop) [Decidable c] (key key' : CPubKey) (n : Int),
          ∃ m, (if c then r₁.credit key n else r₁.credit key' n) = { r₁ with mapBalances := m } := by
        intro c _ key key' n
        split <;> exact ⟨_, rfl⟩
      have hdelegate : ∀ (c : Prop) [Decidable c] (m : Map CPubKey Int) (key : CPubKey) (n : Int),
          ∃ m', (if c then { r₁ with mapBalances := m }.credit key n else { r₁ with mapBalances := m }) =
            { r₁ with mapBalances := m' } := by
        intro c _ m key n
        split <;> exact ⟨_, rfl⟩
      obtain ⟨m, hm⟩ := hshare (env.fTestNet = true ∧ getFork env.fTestNet r₁.nBlockHeight < .missFix)
        s₁.pubkeyOwner s₁.pubkeyManager (s.rewardShares nReward).1
      obtain ⟨m', hm'⟩ := hdelegate ((s.rewardShares nReward).2 > 0) m s₁.pubkeyDelegate
        (s.rewardShares nReward).2
      rw [hm, hm', Option.some.injEq] at h
      have hget : { r₁ with mapBalances := m' }.getStakerInternal b.nStakerID = some s₁ :=
        getStakerInternal_eq_some.2 ⟨(getStakerInternal_eq_some.1 hs).1, by simp [r₁, putStaker]⟩
      refine ⟨s, ?_⟩
      split at h
      · next hfork =>
        rcases disqualifyStakerIfNecessary_cases env s₁ hget with heq | heq
        · exact ⟨s₁, m', rfl, Bool.eq_false_iff.2 hq, .inl rfl, by rw [← h, heq]; rfl⟩
        · refine ⟨s₁.disqualify, m', rfl, Bool.eq_false_iff.2 hq, .inr ⟨hfork, rfl⟩, ?_⟩
          rw [← h, heq]
          simp only [r₁, putStaker, pushPower, recordSlot, setProduced, insert_insert]
      · exact ⟨s₁, m', rfl, Bool.eq_false_iff.2 hq, .inl rfl, by rw [← h]; rfl⟩

theorem stakerProducedBlock_none {nReward : Int} (h : r.stakerProducedBlock env b nReward = none)
    (s : QPStaker) (hs : r.getStakerInternal b.nStakerID = some s) : s.isDisqualified = true := by
  unfold stakerProducedBlock at h
  simp only [hs] at h
  split at h
  · next hq => exact hq
  · cases h

/-- How `produceBlock` ends: before qPoS it does nothing, a block out of its slot is refused, and a
block in its slot is counted, or fails once it is if the queue has no room for its mark. -/
inductive Produces (env : QPEnv) (p b : CBlockIndex) (r : QPRegistry) :
    Except QPRegistry QPRegistry → Prop
  | before : ¬ Fork.qpos ≤ getFork env.fTestNet b.nHeight → Produces env p b r (.ok r)
  | refused : (r.queue.getSlotForID b.nStakerID = some r.queue.nCurrentSlot →
      (r.fCurrentBlockWasProduced && r.outOfReplayMode) = false →
      r.stakerProducedBlock env b (getQPoSReward p) = none) → Produces env p b r (.error r)
  | counted {r₁ : QPRegistry} (res : Except QPRegistry QPRegistry) :
      Fork.qpos ≤ getFork env.fTestNet b.nHeight →
      r.queue.getSlotForID b.nStakerID = some r.queue.nCurrentSlot →
      (r.fCurrentBlockWasProduced && r.outOfReplayMode) = false →
      r.stakerProducedBlock env b (getQPoSReward p) = some r₁ →
      (res = .error (r₁.setQueue (r₁.queue.slotProduced r.queue.nCurrentSlot).1) ∨
        res = .ok (r₁.setQueue
          (r₁.queue.slotProduced r.queue.nCurrentSlot).1).sawBlockAll.updateCertifiedNodesList) →
      Produces env p b r res

theorem produces (env : QPEnv) (p b : CBlockIndex) (r : QPRegistry) :
    Produces env p b r (r.produceBlock env p b) := by
  rw [produceBlock]
  split
  · next hfork =>
    cases hslot : r.queue.getSlotForID b.nStakerID with
    | none => exact .refused fun h => by rw [hslot] at h; cases h
    | some nSlot =>
      dsimp only
      split
      · next hne => exact .refused fun h => absurd (Option.some.inj (hslot.symm.trans h)) hne
      · next hcur =>
        cases not_not.1 hcur
        split
        · next hfull => exact .refused fun _ h => absurd (h.symm.trans hfull) Bool.false_ne_true
        · next hfree =>
          cases hprod : r.stakerProducedBlock env b (getQPoSReward p) with
          | none => exact .refused fun _ _ => hprod
          | some r₁ =>
            refine .counted _ hfork hslot (Bool.eq_false_iff.2 hfree) hprod ?_
            dsimp only
            split
            · exact .inl rfl
            · exact .inr rfl
  · next hfork => exact .before hfork

/-- What holds before a block and of the registry that counts it holds after it. -/
theorem produceBlock_rule (hr : P r)
    (hcount : ∀ r₁, r.queue.getSlotForID b.nStakerID = some r.queue.nCurrentSlot →
      r.stakerProducedBlock env b (getQPoSReward p) = some r₁ →
      P (r₁.setQueue (r₁.queue.slotProduced r.queue.nCurrentSlot).1))
    (hsaw : ∀ r', P r' → P r'.sawBlockAll.updateCertifiedNodesList) : Either P (r.produceBlock env p b) := by
  have h := produces env p b r
  generalize r.produceBlock env p b = res at h
  cases h with
  | before _ => exact hr
  | refused _ => exact hr
  | counted _ _ hslot _ hprod hres =>
    have hr₁ := hcount _ hslot hprod
    rcases hres with rfl | rfl
    · exact hr₁
    · exact hsaw _ hr₁

/-- What operations and a produced block keep, and what setting the block then keeps, a block
update keeps. -/
theorem finishBlock_rule {now : Int} {fJustCheck : Bool} (hops : ∀ r', OpSteps r r' → P r')
    (hprod : ∀ r', P r' → Either P (r'.produceBlock env p b))
    (hblock : ∀ r', P r' → P (r'.setBlock b)) : P (r.finishBlock env now fJustCheck p b).1 := by
  obtain ⟨hok, herr⟩ := opSteps_applyBlockOps env now fJustCheck b r
  unfold finishBlock
  split
  · next e h => exact hops _ (herr e h)
  · next r₁ h =>
    have hr₁ := hprod r₁ (hops r₁ (hok r₁ h))
    split
    · next h₂ => rw [h₂] at hr₁; exact hr₁
    · next h₂ => rw [h₂] at hr₁; exact hblock _ hr₁

theorem advanceSlot_ok (h : advanceSlot env p x = .ok y) :
    (∃ q, (x.1.passSlot env p x.2).queue.incrementSlot = some q ∧
      y = ((((x.1.passSlot env p x.2).setQueue q).setProduced false).checkPower env, x.2)) ∨
    (∃ r, (x.1.passSlot env p x.2).queue.incrementSlot = none ∧
      ((x.1.passSlot env p x.2).endRound p.nMoneySupply).newQueue env
        ((x.1.passSlot env p x.2).queue.getMaxTime + 1) (x.1.passSlot env p x.2).hashBlock =
          some r ∧
      y = ((r.setProduced false).checkPower env, x.2 + 1)) := by
  unfold advanceSlot at h
  generalize x.1.passSlot env p x.2 = r₀ at h ⊢
  unfold nextSlot at h
  cases hq : r₀.queue.incrementSlot with
  | some q =>
    simp only [hq, Except.ok.injEq] at h
    exact .inl ⟨q, rfl, h.symm⟩
  | none =>
    simp only [hq, show (r₀.endRound p.nMoneySupply).queue = r₀.queue from rfl,
      show (r₀.endRound p.nMoneySupply).hashBlock = r₀.hashBlock from rfl] at h
    cases hn : (r₀.endRound p.nMoneySupply).newQueue env (r₀.queue.getMaxTime + 1)
        r₀.hashBlock with
    | none => simp only [hn, reduceCtorEq] at h
    | some r =>
      simp only [hn, Except.ok.injEq] at h
      exact .inr ⟨r, rfl, rfl, h.symm⟩

theorem advanceSlot_error {r : QPRegistry} (h : advanceSlot env p x = .error r) :
    (x.1.passSlot env p x.2).queue.incrementSlot = none ∧
      ((x.1.passSlot env p x.2).endRound p.nMoneySupply).enabledIDs = [] ∧
      r = (x.1.passSlot env p x.2).endRound p.nMoneySupply := by
  unfold advanceSlot at h
  generalize x.1.passSlot env p x.2 = r₀ at h ⊢
  unfold nextSlot at h
  cases hq : r₀.queue.incrementSlot with
  | some q => simp only [hq, reduceCtorEq] at h
  | none =>
    simp only [hq] at h
    unfold newQueue at h
    split at h
    · next r' heq =>
      split at heq
      · next hnone =>
        split at hnone
        · next hlen =>
          cases heq
          cases h
          exact ⟨rfl, List.length_eq_zero_iff.1 (Nat.lt_one_iff.1 hlen), rfl⟩
        · cases hnone
      · cases heq
    · cases h

/-- `r` with the queue, the rounds and the balances of `q`: what an iteration may change apart from
the slot that passes. -/
def renewed (r q : QPRegistry) : QPRegistry :=
  { r with
    queue := q.queue, queuePrev := q.queuePrev, nRound := q.nRound, nRoundSeed := q.nRoundSeed
    powerRoundPrev := q.powerRoundPrev, powerRoundCurrent := q.powerRoundCurrent
    hashLastBlockPrev3Queue := q.hashLastBlockPrev3Queue
    hashLastBlockPrev2Queue := q.hashLastBlockPrev2Queue
    hashLastBlockPrev1Queue := q.hashLastBlockPrev1Queue, mapBalances := q.mapBalances
    mapActive := q.mapActive, fCurrentBlockWasProduced := q.fCurrentBlockWasProduced
    fShouldRollback := q.fShouldRollback, nHeightExitedReplay := q.nHeightExitedReplay }

theorem newQueue_renewed {nTime0 : UInt32} {prevHash : Uint256}
    (h : r.newQueue env nTime0 prevHash = some r') : r' = r.renewed r' := by
  unfold newQueue at h
  split at h
  · cases h
  · cases h
    rfl

theorem checkPower_frame (env : QPEnv) (r : QPRegistry) :
    ∃ f m, r.checkPower env = { r with fShouldRollback := f, nHeightExitedReplay := m } := by
  unfold checkPower
  split
  · exact ⟨_, _, rfl⟩
  · split <;> exact ⟨_, _, rfl⟩

theorem advanceSlot_renewed (h : advanceSlot env p x = .ok y) :
    ∃ q, y.1 = (x.1.passSlot env p x.2).renewed q := by
  rcases advanceSlot_ok h with ⟨q, -, rfl⟩ | ⟨r, -, hr, rfl⟩
  · obtain ⟨f, m, hpow⟩ := checkPower_frame env (((x.1.passSlot env p x.2).setQueue q).setProduced false)
    exact ⟨(((x.1.passSlot env p x.2).setQueue q).setProduced false).checkPower env, by rw [hpow]; rfl⟩
  · obtain ⟨f, m, hpow⟩ := checkPower_frame env (r.setProduced false)
    refine ⟨(r.setProduced false).checkPower env, ?_⟩
    rw [hpow, newQueue_renewed hr]
    rfl

/-- The rule of the advance loop with a ghost value that every iteration updates. -/
theorem advanceTime_ghost {V : Type} {I : V → QPRegistry → Prop} (update : V → QPRegistry × Nat → V)
    {v v₁ : V} (hr : I v r) (hstart : ∀ x, r.startQueue env p = some x → I v₁ x.1)
    (hok : ∀ v x y, I v x.1 → advanceSlot env p x = .ok y → I (update v x) y.1)
    (herr : ∀ v x e, I v x.1 → advanceSlot env p x = .error e → I (update v x) e) :
    I (if Fork.qpos ≤ getFork env.fTestNet (p.nHeight + 1) then
        match r.startQueue env p with
        | none => v
        | some x => (Loop.visited (slotHasPassed nTime) (advanceSlot env p) advanceFuel x).foldl update v₁
      else v) (r.advanceTime env nTime p).1 := by
  unfold advanceTime
  split
  · cases hs : r.startQueue env p with
    | none => exact hr
    | some x =>
      obtain ⟨hend, hfail⟩ := @Loop.whileLoop_ghost _ _ _ (slotHasPassed nTime) (advanceSlot env p)
        (fun v y => I v y.1) I update (fun v x y hI _ => hok v x y hI)
        (fun v x e hI _ => herr v x e hI) advanceFuel v₁ x (hstart x hs)
      dsimp only
      split
      · next e h => exact hfail e h
      · next r' n h => exact hend (r', n) h
  · exact hr

theorem startQueue_rule (hr : P r) (hnew : ∀ r', r.newQueue env (p.nTime + 1) p.hashBlock = some r' → P r')
    (h : r.startQueue env p = some x) : P x.1 := by
  unfold startQueue at h
  split at h
  · obtain ⟨r', hr', rfl⟩ := Option.map_eq_some_iff.1 h
    exact hnew r' hr'
  · cases h
    exact hr

theorem advanceTime_rule (hr : P r) (hnew : ∀ r', r.newQueue env (p.nTime + 1) p.hashBlock = some r' → P r')
    (hok : ∀ x y, P x.1 → advanceSlot env p x = .ok y → P y.1)
    (herr : ∀ x e, P x.1 → advanceSlot env p x = .error e → P e) : P (r.advanceTime env nTime p).1 :=
  @advanceTime_ghost r env p nTime Unit (fun _ => P) (fun _ _ => ()) () () hr
    (fun _ h => startQueue_rule hr hnew h) (fun _ => hok) fun _ => herr

/-- A view of the registry that passing a slot keeps and that does not depend on what an iteration
renews. -/
theorem advanceTime_view {α : Type} (f : QPRegistry → α) (hpass : ∀ r n, f (r.passSlot env p n) = f r)
    (hrenew : ∀ r q, f (renewed r q) = f r) : f (r.advanceTime env nTime p).1 = f r := by
  refine advanceTime_rule (P := fun r' => f r' = f r) rfl (fun r' h => ?_) (fun x y hx h => ?_)
    (fun x e hx h => ?_)
  · rw [newQueue_renewed h, hrenew]
  · obtain ⟨q, hq⟩ := advanceSlot_renewed h
    rw [hq, hrenew, hpass, hx]
  · rw [(advanceSlot_error h).2.2]
    exact ((hrenew _ ((x.1.passSlot env p x.2).endRound p.nMoneySupply)).trans (hpass _ _)).trans hx

end Stealth.QPRegistry

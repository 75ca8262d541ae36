import Stealth.Qpos.Walk

/-!
The invariant of every registry that updates can reach: the current slot is one of the queue, no staker has
two, and those still to come are qualified.
-/

namespace Stealth.QPRegistry

variable {r r' : QPRegistry} {env : QPEnv} {nID : Nat}

def Serves (r : QPRegistry) (nID : Nat) : Prop :=
  ∃ s, r.getStakerInternal nID = some s ∧ s.fQualified = true

structure QueueInv (env : QPEnv) (r : QPRegistry) : Prop where
  /-- The current slot is a slot of the queue once there is a queue. -/
  slot : r.queue.vStakerIDs ≠ [] → r.queue.nCurrentSlot < r.queue.vStakerIDs.length
  nodup : r.queue.vStakerIDs.Nodup
  /-- A slot still to be produced belongs to a registered, qualified staker. -/
  pending : ∀ i nID, r.queue.vStakerIDs[i]? = some nID →
    (r.queue.nCurrentSlot < i ∨ r.queue.nCurrentSlot = i ∧ r.fCurrentBlockWasProduced = false) →
    r.Serves nID
  ids : IdsInOrder r
  /-- Past the first qPoS block there is a queue. -/
  started : Fork.qpos ≤ getFork env.fTestNet r.nBlockHeight → r.queue.vStakerIDs ≠ []

theorem queueInv_empty (env : QPEnv) : QueueInv env (empty env) where
  slot h := absurd rfl h
  nodup := List.nodup_nil
  pending i nID h := by simp [empty, QPQueue.null] at h
  ids nID s h := by simp [empty] at h
  started h := by
    exfalso
    revert h
    simp only [empty]
    cases env.fTestNet <;> decide

def KeepsServing (r r' : QPRegistry) : Prop := ∀ nID, r.Serves nID → r'.Serves nID

theorem KeepsStakers.keepsServing (h : KeepsStakers r r') : KeepsServing r r' := by
  rintro nID ⟨s, hs, hq⟩
  obtain ⟨s', hs', -, hq'⟩ := h nID s hs
  exact ⟨s', hs', hq'.trans hq⟩

/-- The invariant survives any change that keeps the queue, keeps serving stakers and registers
new stakers in order. -/
theorem QueueInv.of_keeps (hi : QueueInv env r) (hqueue : r'.queue.vStakerIDs = r.queue.vStakerIDs)
    (hslot : r'.queue.nCurrentSlot = r.queue.nCurrentSlot)
    (hprod : r.fCurrentBlockWasProduced = true → r'.fCurrentBlockWasProduced = true)
    (hheight : r'.nBlockHeight = r.nBlockHeight) (hserve : KeepsServing r r')
    (hids : IdsInOrder r') : QueueInv env r' where
  slot h := by rw [hqueue, hslot]; exact hi.slot (hqueue ▸ h)
  nodup := hqueue ▸ hi.nodup
  pending i nID h hp := by
    rw [hqueue] at h
    rw [hslot] at hp
    refine hserve nID (hi.pending i nID h (hp.imp_right fun hp => ⟨hp.1, ?_⟩))
    cases hf : r.fCurrentBlockWasProduced with
    | false => rfl
    | true => rw [hprod hf] at hp; exact absurd hp.2 (by decide)
  ids := hids
  started h := by rw [hqueue]; exact hi.started (hheight ▸ h)

theorem keepsServing_stakerMissedBlock (env : QPEnv) (r : QPRegistry) (nID : Nat) (nHeight : Int) :
    KeepsServing r (r.stakerMissedBlock env nID nHeight) := by
  rcases stakerMissedBlock_cases env r nID nHeight with ⟨-, heq⟩ | ⟨s, s', hs, hq, heq, hm, -⟩
  · rw [heq]
    exact fun _ h => h
  · rw [heq]
    rintro id ⟨t, ht, htq⟩
    obtain ⟨hid, hmap⟩ := getStakerInternal_eq_some.1 ht
    by_cases h : nID = id
    · subst h
      exact ⟨s', getStakerInternal_eq_some.2 ⟨hid, by simp [putStaker, recordSlot]⟩,
        hm.qualified.trans hq⟩
    · refine ⟨t, getStakerInternal_eq_some.2 ⟨hid, ?_⟩, htq⟩
      simp [putStaker, recordSlot, pushPower, getElem?_insert, h, hmap]

theorem QueueInv.stakerMissedBlock (hi : QueueInv env r) (nID : Nat)
    (nHeight : Int) : QueueInv env (r.stakerMissedBlock env nID nHeight) := by
  have hserve := keepsServing_stakerMissedBlock env r nID nHeight
  rcases stakerMissedBlock_cases env r nID nHeight with ⟨-, heq⟩ | ⟨s, s', hs, -, heq, -⟩
  · rw [heq]
    exact hi
  · rw [heq] at hserve ⊢
    exact hi.of_keeps rfl rfl id rfl hserve (hi.ids.putStaker (getStakerInternal_eq_some.1 hs).1)

theorem QueueInv.withMode (hi : QueueInv env r) (m : Int) (s : Uint256) : QueueInv env (r.withMode m s) :=
  hi.of_keeps rfl rfl id rfl (fun _ h => h) hi.ids

theorem SameState.queueInv (h : SameState r r') (hi : QueueInv env r) : QueueInv env r' := by
  obtain ⟨m, s, rfl⟩ := h.exists_withMode
  exact hi.withMode m s

theorem QueueInv.passSlot (hi : QueueInv env r)
    (pindex : CBlockIndex) (n : Nat) : QueueInv env (r.passSlot env pindex n) := by
  unfold QPRegistry.passSlot
  split
  · exact hi
  · split
    · exact hi.stakerMissedBlock _ _
    · exact hi.withMode _ _

variable {prevHash : Uint256} {nTime0 : UInt32} {q : QPQueue}

/-- A renewed queue lists enabled stakers, each once, and starts at its first slot. -/
theorem newQueue_spec (h : r.newQueue env nTime0 prevHash = some r') :
    r'.queue.nCurrentSlot = 0 ∧ r'.queue.nSlotTime0 = nTime0 ∧
      r'.queue.vStakerIDs.Perm r.enabledIDs ∧ r'.queue.vStakerIDs ≠ [] ∧
      r'.mapStakers = r.mapStakers ∧ r'.nIDCounter = r.nIDCounter ∧
      r'.nBlockHeight = r.nBlockHeight ∧ r'.hashBlock = r.hashBlock ∧
      r'.fCurrentBlockWasProduced = r.fCurrentBlockWasProduced := by
  unfold newQueue at h
  split at h
  · cases h
  · next hlen =>
    cases h
    have hperm := shuffleIDs_perm (env.shuffler (env.queueSeed prevHash)) r.enabledIDs
    refine ⟨rfl, rfl, hperm, ?_, rfl, rfl, rfl, rfl, rfl⟩
    intro hnil
    rw [show (QPQueue.start nTime0 (shuffleIDs (env.shuffler (env.queueSeed prevHash))
      r.enabledIDs)).vStakerIDs = shuffleIDs (env.shuffler (env.queueSeed prevHash)) r.enabledIDs
      from rfl] at hnil
    rw [hnil] at hperm
    rw [← hperm.length_eq] at hlen
    exact hlen (by decide)

theorem QueueInv.serves_of_enabled (hi : QueueInv env r) (h : nID ∈ r.enabledIDs) : r.Serves nID := by
  obtain ⟨s, hs, he⟩ := mem_enabledIDs.1 h
  refine ⟨s, getStakerInternal_eq_some.2 ⟨hi.ids nID s hs, hs⟩, ?_⟩
  simp only [QPStaker.isEnabled, Bool.and_eq_true] at he
  exact he.1

theorem QueueInv.newQueue (hi : QueueInv env r) (h : r.newQueue env nTime0 prevHash = some r')
    (f : Bool) :
    QueueInv env (r'.setProduced f) := by
  obtain ⟨hslot, -, hperm, hne, hst, hid, hht, -, -⟩ := newQueue_spec h
  have hserve : KeepsServing r r' := (keepsStakers_of_eq hst hid).keepsServing
  refine ⟨fun _ => ?_, hperm.nodup_iff.2 (nodup_enabledIDs r), fun i nID hget _ => ?_, ?_,
    fun _ => hne⟩
  · exact hslot ▸ List.length_pos_iff.2 hne
  · exact hserve nID (hi.serves_of_enabled (hperm.mem_iff.1 (List.mem_of_getElem? hget)))
  · intro nID s hs
    exact hid ▸ hi.ids nID s (hst ▸ hs)

theorem QueueInv.setQueue_next (hi : QueueInv env r) (h : r.queue.incrementSlot = some q) :
    QueueInv env ((r.setQueue q).setProduced false) := by
  unfold QPQueue.incrementSlot at h
  split at h
  · cases h
  · next hlt =>
    cases h
    refine ⟨fun _ => Nat.lt_of_not_le hlt, hi.nodup, fun i nID hget hp => ?_, hi.ids, hi.started⟩
    refine hi.pending i nID hget (.inl ?_)
    rcases hp with hp | hp
    · exact Nat.lt_of_succ_lt hp
    · exact hp.1 ▸ Nat.lt_succ_self _

theorem QueueInv.endRound (hi : QueueInv env r) (n : Int) : QueueInv env (r.endRound n) :=
  hi.of_keeps rfl rfl id rfl (fun _ h => h) hi.ids

theorem QueueInv.checkPower (hi : QueueInv env r) : QueueInv env (r.checkPower env) := by
  unfold QPRegistry.checkPower
  split
  · exact hi.of_keeps rfl rfl id rfl (fun _ h => h) hi.ids
  · split <;> exact hi.of_keeps rfl rfl id rfl (fun _ h => h) hi.ids

/-- One iteration of the advance loop keeps the invariant, also when the renewal fails. -/
theorem QueueInv.advanceSlot {x : QPRegistry × Nat} (hi : QueueInv env x.1) (pindex : CBlockIndex) :
    (∀ y, advanceSlot env pindex x = .ok y → QueueInv env y.1) ∧
      (∀ r, advanceSlot env pindex x = .error r → QueueInv env r) := by
  have hpass := hi.passSlot pindex x.2
  refine ⟨fun y h => ?_, fun r h => ?_⟩
  · rcases advanceSlot_ok h with ⟨q, hq, rfl⟩ | ⟨r', -, hr', rfl⟩
    · exact (hpass.setQueue_next hq).checkPower
    · exact ((hpass.endRound _).newQueue hr' false).checkPower
  · rw [(advanceSlot_error h).2.2]
    exact hpass.endRound _

theorem QueueInv.advanceTime (hi : QueueInv env r) (nTime : UInt32)
    (pindex : CBlockIndex) : QueueInv env (r.advanceTime env nTime pindex).1 :=
  advanceTime_rule hi (fun r' h => hi.newQueue h r'.fCurrentBlockWasProduced)
    (fun _ y hx h => (hx.advanceSlot pindex).1 y h) fun _ e hx h => (hx.advanceSlot pindex).2 e h

theorem OpsFrame.queueInv (h : OpsFrame r r') (hi : QueueInv env r) : QueueInv env r' :=
  hi.of_keeps (by rw [h.queue]) (by rw [h.queue]) (fun hp => h.produced.trans hp) h.height
    h.stakers.keepsServing (h.ids hi.ids)

/-- What producing a block does: one staker changes, without a change of its misses, and the slot
counts as produced. -/
structure Produced (r : QPRegistry) (nID : Nat) (s s' : QPStaker) (r' : QPRegistry) : Prop where
  stakers : r'.mapStakers = r.mapStakers.insert nID s'
  missed : s'.nBlocksMissed = s.nBlocksMissed
  counter : r'.nIDCounter = r.nIDCounter
  queue : r'.queue = r.queue
  height : r'.nBlockHeight = r.nBlockHeight
  replay : r'.nHeightExitedReplay = r.nHeightExitedReplay
  produced : r'.fCurrentBlockWasProduced = true

theorem stakerProducedBlock_spec {pindex : CBlockIndex}
    {nReward : Int} (h : r.stakerProducedBlock env pindex nReward = some r') :
    ∃ s s', r.getStakerInternal pindex.nStakerID = some s ∧ s.fQualified = true ∧
      Produced r pindex.nStakerID s s' r' := by
  obtain ⟨s, s', balances, hs, hq, hs', rfl⟩ := stakerProducedBlock_cases h
  refine ⟨s, s', hs, by simpa [QPStaker.isDisqualified] using hq, rfl, ?_, rfl, rfl, rfl, rfl, rfl⟩
  rcases hs' with rfl | ⟨-, rfl⟩ <;> rfl

theorem getSlotForID_spec {nSlot : Nat} (h : q.getSlotForID nID = some nSlot) :
    q.vStakerIDs[nSlot]? = some nID := by
  obtain ⟨hlt, hp, -⟩ := List.findIdx?_eq_some_iff_getElem.1 h
  rw [List.getElem?_eq_getElem hlt]
  exact congrArg some (beq_iff_eq.1 hp)

theorem QueueInv.produced {s s' : QPStaker}
    (hi : QueueInv env r) (hcur : r.queue.vStakerIDs[r.queue.nCurrentSlot]? = some nID)
    (hs : r.getStakerInternal nID = some s) (hp : Produced r nID s s' r') : QueueInv env r' where
  slot h := by rw [hp.queue] at h ⊢; exact hi.slot h
  nodup := hp.queue ▸ hi.nodup
  pending i id hget hpend := by
    rw [hp.queue] at hget hpend
    rcases hpend with hlt | ⟨-, hf⟩
    · have hne : nID ≠ id := by
        rintro rfl
        obtain ⟨h₁, e₁⟩ := List.getElem?_eq_some_iff.1 hcur
        obtain ⟨h₂, e₂⟩ := List.getElem?_eq_some_iff.1 hget
        exact absurd ((List.Nodup.getElem_inj_iff hi.nodup).1 (e₁.trans e₂.symm)) (by omega)
      obtain ⟨t, ht, hq⟩ := hi.pending i id hget (.inl hlt)
      obtain ⟨hid, hmap⟩ := getStakerInternal_eq_some.1 ht
      refine ⟨t, getStakerInternal_eq_some.2 ⟨hp.counter ▸ hid, ?_⟩, hq⟩
      rw [hp.stakers, getElem?_insert]
      simp [hne, hmap]
    · rw [hp.produced] at hf; cases hf
  ids := by
    intro id t ht
    rw [hp.stakers, getElem?_insert] at ht
    rw [hp.counter]
    split at ht
    · next heq =>
      rw [← Std.LawfulEqCmp.compare_eq_iff_eq.1 heq]
      exact (getStakerInternal_eq_some.1 hs).1
    · exact hi.ids id t ht
  started h := by rw [hp.queue]; exact hi.started (hp.height ▸ h)

/-- A change of the statistics of stakers that keeps who is registered and qualified. -/
theorem QueueInv.mapStakers (hi : QueueInv env r)
    {f : Nat → QPStaker → QPStaker} (hf : ∀ nID s, s.fQualified = true → (f nID s).fQualified = true)
    (hqueue : r'.queue.vStakerIDs = r.queue.vStakerIDs) (hslot : r'.queue.nCurrentSlot = r.queue.nCurrentSlot)
    (hprod : r'.fCurrentBlockWasProduced = r.fCurrentBlockWasProduced)
    (hheight : r'.nBlockHeight = r.nBlockHeight) (hcount : r'.nIDCounter = r.nIDCounter)
    (hst : r'.mapStakers = r.mapStakers.map f) : QueueInv env r' := by
  refine hi.of_keeps hqueue hslot (fun h => hprod.trans h) hheight ?_ ?_
  · rintro nID ⟨s, hs, hq⟩
    obtain ⟨hid, hmap⟩ := getStakerInternal_eq_some.1 hs
    refine ⟨f nID s, getStakerInternal_eq_some.2 ⟨hcount ▸ hid, ?_⟩, hf nID s hq⟩
    rw [hst, getElem?_map, hmap]
    rfl
  · intro nID s hs
    rw [hst, getElem?_map] at hs
    obtain ⟨t, ht, -⟩ := Option.map_eq_some_iff.1 hs
    exact hcount ▸ hi.ids nID t ht

theorem QueueInv.sawBlockAll (hi : QueueInv env r) : QueueInv env r.sawBlockAll.updateCertifiedNodesList := by
  refine hi.mapStakers (f := fun _ s => if s.isQualified then s.sawBlock else s) (fun _ s hq => ?_)
    rfl rfl rfl rfl rfl rfl
  split <;> exact hq

/-- The invariant and, past the first qPoS block, a queue: the block is then in one of its slots. -/
theorem QueueInv.produceBlock (hi : QueueInv env r) (pindexPrev pindex : CBlockIndex) :
    (∀ r', r.produceBlock env pindexPrev pindex = .ok r' → QueueInv env r' ∧
        (Fork.qpos ≤ getFork env.fTestNet pindex.nHeight → r'.queue.vStakerIDs ≠ [])) ∧
      (∀ r', r.produceBlock env pindexPrev pindex = .error r' → QueueInv env r') := by
  have h := produces env pindexPrev pindex r
  generalize r.produceBlock env pindexPrev pindex = res at h
  cases h with
  | before hfork => exact ⟨fun r' h => by cases h; exact ⟨hi, fun h => absurd h hfork⟩, fun _ h => nomatch h⟩
  | refused _ => exact ⟨fun _ h => (nomatch h), fun r' h => by cases h; exact hi⟩
  | @counted r₁ _ _ hslot _ hprod hres =>
    obtain ⟨s, s', hs, -, hp⟩ := stakerProducedBlock_spec hprod
    have hget := getSlotForID_spec hslot
    have hi₁ := hi.produced hget hs hp
    have hi₂ : QueueInv env (r₁.setQueue (r₁.queue.slotProduced r.queue.nCurrentSlot).1) :=
      hi₁.of_keeps rfl rfl id rfl (fun _ h => h) hi₁.ids
    have hne : r₁.queue.vStakerIDs ≠ [] := by
      rw [hp.queue]
      exact List.ne_nil_of_mem (List.mem_of_getElem? hget)
    rcases hres with rfl | rfl
    · exact ⟨fun _ h => (nomatch h), fun r' h => by cases h; exact hi₂⟩
    · exact ⟨fun r' h => by cases h; exact ⟨hi₂.sawBlockAll, fun _ => hne⟩, fun _ h => nomatch h⟩

theorem QueueInv.finishBlock (hi : QueueInv env r) (now : Int)
    (fJustCheck : Bool) (pindexPrev pindex : CBlockIndex) :
    QueueInv env (r.finishBlock env now fJustCheck pindexPrev pindex).1 := by
  obtain ⟨hok, herr⟩ := opsFrame_applyBlockOps env now fJustCheck pindex r
  unfold QPRegistry.finishBlock
  split
  · next e h => exact (herr e h).queueInv hi
  · next r₁ h =>
    obtain ⟨hpok, hperr⟩ := ((hok r₁ h).queueInv hi).produceBlock pindexPrev pindex
    split
    · next r₂ h₂ => exact hperr r₂ h₂
    · next r₂ h₂ =>
      obtain ⟨hi₂, hstart⟩ := hpok r₂ h₂
      exact ⟨hi₂.slot, hi₂.nodup, hi₂.pending, hi₂.ids, hstart⟩

theorem QueueInv.crossFork (hi : QueueInv env r) (nFork : Fork) : QueueInv env (r.crossFork env nFork) := by
  obtain ⟨f, heq, hf⟩ := crossFork_eq env nFork r
  rw [heq]
  refine hi.mapStakers (fun n s hs => ?_) rfl rfl rfl rfl rfl rfl
  rcases hf n s with h | h | ⟨-, h⟩ <;> rw [h] <;> first | exact hs | rfl

theorem sameState_takeSnapshot (env : QPEnv) (nSnapshotType : SnapshotType) (pindex : CBlockIndex)
    (db : SnapshotDB) (r : QPRegistry) : SameState r (r.takeSnapshot env nSnapshotType pindex db).2 := by
  unfold takeSnapshot
  dsimp only
  split
  · split <;> rfl
  · split <;> rfl

/-- The registries that updates reach from an empty one, whatever blocks, times and clocks the
updates are given and whatever their verdicts. -/
inductive Reachable (env : QPEnv) : QPRegistry → Prop
  | empty : Reachable env (empty env)
  | time {r : QPRegistry} (nTime : UInt32) (pindex : CBlockIndex) : Reachable env r →
      Reachable env (r.updateOnNewTime env nTime pindex).1
  | block {r : QPRegistry} (now : Int) (nSnapshotType : SnapshotType) (fJustCheck : Bool)
      (pindexPrev pindex : CBlockIndex) (db : SnapshotDB) : Reachable env r →
      Reachable env (r.updateOnNewBlock env now nSnapshotType fJustCheck pindexPrev pindex db).2.1
  | exitReplay {r : QPRegistry} : Reachable env r → Reachable env r.exitReplayModeInternal
  | enterReplay {r : QPRegistry} : Reachable env r → Reachable env r.enterReplayMode
  | sync {r : QPRegistry} (now : Int) : Reachable env r → Reachable env (r.checkSynced env now)

theorem Reachable.invariant {I : QPRegistry → Prop} (hempty : I (QPRegistry.empty env))
    (hmode : ∀ {r r'}, I r → SameState r r' → I r') (hcross : ∀ {r} nFork, I r → I (r.crossFork env nFork))
    (htime : ∀ {r} nTime p, I r → I (r.advanceTime env nTime p).1)
    (hfinish : ∀ {r} now fJustCheck p b, I r → I (r.finishBlock env now fJustCheck p b).1)
    (h : Reachable env r) : I r := by
  induction h with
  | empty => exact hempty
  | time nTime pindex _ ih => exact htime nTime pindex ih
  | @block r now nSnapshotType fJustCheck p b db _ ih =>
    have hsnap := hmode (hcross (getFork env.fTestNet b.nHeight) ih)
      (sameState_takeSnapshot env nSnapshotType p db _)
    have hadvanced := htime b.nTime p hsnap
    unfold QPRegistry.updateOnNewBlock updateOnNewTimeInternal
    dsimp only
    split
    · next db' r' heq =>
      rw [Prod.mk.injEq] at heq
      rw [heq.2] at hadvanced
      exact hadvanced
    · next db' r' heq =>
      rw [Prod.mk.injEq] at heq
      rw [heq.2] at hadvanced
      exact hfinish now fJustCheck p b hadvanced
  | exitReplay _ ih => exact hmode ih rfl
  | enterReplay _ ih =>
    refine hmode ih ?_
    unfold enterReplayMode
    split <;> rfl
  | sync now _ ih =>
    refine hmode ih ?_
    unfold checkSynced
    split <;> rfl

theorem Reachable.queueInv (h : Reachable env r) : QueueInv env r :=
  h.invariant (queueInv_empty env) (fun hi hsame => hsame.queueInv hi)
    (fun nFork hi => hi.crossFork nFork) (fun nTime p hi => hi.advanceTime nTime p)
    (fun now fJustCheck p b hi => hi.finishBlock now fJustCheck p b)

end Stealth.QPRegistry

import Stealth.Qpos.Persistent
import Stealth.Qpos.Windows

/-! Advancing twice to one time does no more than advancing once. -/

namespace Stealth.QPRegistry

open Loop

/-- There is a queue, and its current slot does not end before a time. -/
def InSlot (nTime : UInt32) (r : QPRegistry) : Prop :=
  r.queue.isEmpty = false ∧ ¬ r.queue.getCurrentSlotEnd < nTime

instance (nTime : UInt32) (r : QPRegistry) : Decidable (InSlot nTime r) := by
  unfold InSlot
  infer_instance

theorem InSlot.advanceTime {nTime : UInt32} {r : QPRegistry} (h : InSlot nTime r) (env : QPEnv)
    (p : CBlockIndex) : r.advanceTime env nTime p = (r, true) := by
  have hc : slotHasPassed nTime (r, 0) = false := decide_eq_false h.2
  rw [QPRegistry.advanceTime, startQueue_of_not_isEmpty h.1]
  split
  · dsimp only
    rw [advanceLoop, whileLoop_of_not hc]
  · rfl

section
variable {env : QPEnv} {nTime : UInt32} {p b : CBlockIndex} {r r' : QPRegistry}

theorem advanceTime_before_qpos (h : getFork env.fTestNet (p.nHeight + 1) < .qpos) :
    r.advanceTime env nTime p = (r, true) :=
  if_neg (Fork.not_le.2 h)

theorem QueueInv.onSlot_startQueue (hi : QueueInv env r) {s : QPRegistry × Nat}
    (h : r.startQueue env p = some s) : OnSlot s := by
  rw [startQueue] at h
  split at h
  · obtain ⟨r', hr', rfl⟩ := Option.map_eq_some_iff.1 h
    obtain ⟨hslot, -, -, hne, -⟩ := newQueue_spec hr'
    rw [OnSlot, hslot]
    exact List.length_pos_iff.2 hne
  · next hempty =>
    cases h
    exact hi.slot fun hnil => hempty (List.isEmpty_iff.2 hnil)

theorem isEmpty_of_onSlot {s : QPRegistry × Nat} (h : OnSlot s) : s.1.queue.isEmpty = false := by
  rw [QPQueue.isEmpty, List.isEmpty_eq_false_iff]
  exact List.ne_nil_of_length_pos (Nat.lt_of_le_of_lt (Nat.zero_le _) h)

theorem advanceTime_cases (nTime : UInt32) (r : QPRegistry)
    (hfork : Fork.qpos ≤ getFork env.fTestNet (p.nHeight + 1)) :
    (r.startQueue env p = none ∧ r.advanceTime env nTime p = (r, false)) ∨
      ∃ s, r.startQueue env p = some s ∧
        ((∃ e, advanceLoop env nTime p s = .error e ∧ r.advanceTime env nTime p = (e, false)) ∨
          ∃ t, advanceLoop env nTime p s = .ok t ∧ r.advanceTime env nTime p = (t.1, true)) := by
  rw [QPRegistry.advanceTime, if_pos hfork]
  cases r.startQueue env p with
  | none => exact .inl ⟨rfl, rfl⟩
  | some s =>
    refine .inr ⟨s, rfl, ?_⟩
    dsimp only
    cases advanceLoop env nTime p s with
    | error e => exact .inl ⟨e, rfl, rfl⟩
    | ok t => exact .inr ⟨t, rfl, rfl⟩

theorem inSlot_advanceTime (hi : QueueInv env r) (hfork : Fork.qpos ≤ getFork env.fTestNet (p.nHeight + 1))
    (hok : (r.advanceTime env nTime p).2 = true) : InSlot nTime (r.advanceTime env nTime p).1 := by
  rcases advanceTime_cases nTime r hfork with
    ⟨-, hadv⟩ | ⟨s, hs, ⟨e, -, hadv⟩ | ⟨t, ht, hadv⟩⟩
  · rw [hadv] at hok
    cases hok
  · rw [hadv] at hok
    cases hok
  · rw [hadv]
    have hOn := hi.onSlot_startQueue hs
    rw [advanceLoop_eq_iterateE env nTime p hOn] at ht
    obtain ⟨hOn', hclock⟩ := iterateE_clock _ hOn ht
    refine ⟨isEmpty_of_onSlot hOn', fun hlt => ?_⟩
    have hsplit := slotsPassed_add (UInt32.le_refl nTime) _ s.1.queue.getCurrentSlotEnd (Nat.le_refl _)
    rw [← hclock] at hsplit
    have hpos : 0 < slotsPassed t.1.queue.getCurrentSlotEnd nTime := slotsPassed_pos_iff.2 hlt
    omega

/-- A qPoS block is accepted only from the holder of the slot that its time leads to. -/
theorem slotOwner_of_update {now : Int} {nSnapshotType : SnapshotType} {fJustCheck : Bool} {db : SnapshotDB}
    (hr : Reachable env r) (hext : b.nHeight = p.nHeight + 1) (hfork : .qpos ≤ getFork env.fTestNet b.nHeight)
    (h : r.update env (.block now nSnapshotType fJustCheck p b db) = some r') :
    r'.queue.vStakerIDs[r'.queue.nCurrentSlot]? = some b.nStakerID ∧ InSlot b.nTime r' ∧
      r'.fCurrentBlockWasProduced = true := by
  rw [update] at h
  split at h
  · next hblock =>
    cases h
    obtain ⟨hok, hfinish⟩ := updateOnNewBlock_accepted hblock
    have hin := inSlot_advanceTime (hr.queueInv.beforeAdvance nSnapshotType p b db) (hext ▸ hfork) hok
    obtain ⟨r₁, r₂, hops, hprod, rfl⟩ := finishBlock_accepted hfinish
    obtain ⟨hslot, -, r₃, hr₃, rfl⟩ := produceBlock_ok hfork hprod
    obtain ⟨s, s', -, -, hproduced⟩ := stakerProducedBlock_spec hr₃
    have hheld := getSlotForID_spec hslot
    have hframe := (opsFrame_applyBlockOps env now fJustCheck b _).1 r₁ hops
    -- operations and production leave the queue where it is
    rw [← hproduced.queue] at hheld
    rw [InSlot, ← hframe.queue, ← hproduced.queue] at hin
    exact ⟨hheld, hin, hproduced.produced⟩
  · cases h

theorem slotOwner_of_update_early : ∃ r r' u, Reachable mainEnv r ∧ r.update mainEnv u = some r' ∧
    r'.queue.vStakerIDs[r'.queue.nCurrentSlot]? = some earlyBlock.nStakerID := by
  obtain ⟨r, _, hr, -, -, hrun, -⟩ := runUpdates_twoBlocks
  obtain ⟨r', hu, -⟩ := Option.bind_eq_some_iff.1 hrun
  exact ⟨r, r', _, .replay hr, hu, (slotOwner_of_update (.replay hr) (by decide) (by decide) hu).1⟩

theorem advanceTime_fails_again (hi : QueueInv env r) (hfail : (r.advanceTime env nTime p).2 = false) :
    ((r.advanceTime env nTime p).1.advanceTime env nTime p).2 = false := by
  by_cases hfork : Fork.qpos ≤ getFork env.fTestNet (p.nHeight + 1)
  · rcases advanceTime_cases nTime r hfork with
      ⟨-, hadv⟩ | ⟨s, hs, ⟨e, he, hadv⟩ | ⟨t, ht, hadv⟩⟩
    · rw [hadv]
      exact congrArg Prod.snd hadv
    · have hend := (whileLoop_invariant (I := OnSlot)
        (E := fun e : QPRegistry => OnSlot (e, 0) ∧ slotHasPassed nTime (e, 0) = true ∧
          e.queue.vStakerIDs.length ≤ e.queue.nCurrentSlot + 1 ∧ e.enabledIDs = [])
        (fun _ _ hI _ hstep => (advanceSlot_clock hI hstep).1)
        (fun x e hI hc hstep => ?_) advanceFuel s (hi.onSlot_startQueue hs)).2 e he
      · obtain ⟨hOn, hc, hlast, hnil⟩ := hend
        obtain ⟨fuel, hfuel⟩ : ∃ fuel, advanceFuel = fuel + 1 := ⟨advanceFuel - 1, rfl⟩
        rw [hadv, QPRegistry.advanceTime, if_pos hfork,
          startQueue_of_not_isEmpty (isEmpty_of_onSlot hOn)]
        dsimp only
        rw [advanceLoop, hfuel, whileLoop_error hc (advanceSlot_last_nil env p hlast hnil)]
      · obtain ⟨hnone, hnil, rfl⟩ := advanceSlot_error hstep
        have hqueue : ((x.1.passSlot env p x.2).endRound p.nMoneySupply).queue = x.1.queue :=
          passSlot_queue env p x.2 x.1
        rw [passSlot_queue] at hnone
        refine ⟨?_, ?_, ?_, hnil⟩
        · rw [OnSlot, hqueue]
          exact hI
        · rw [slotHasPassed, hqueue]
          exact hc
        · rw [hqueue]
          exact incrementSlot_eq_none hnone
    · rw [hadv] at hfail
      cases hfail
  · rw [advanceTime_before_qpos (Fork.not_le.1 hfork)] at hfail
    cases hfail

theorem advanceTime_again (hi : QueueInv env r)
    (hok : ((r.advanceTime env nTime p).1.advanceTime env nTime p).2 = true) :
    (r.advanceTime env nTime p).1.advanceTime env nTime p = ((r.advanceTime env nTime p).1, true) := by
  by_cases hfork : Fork.qpos ≤ getFork env.fTestNet (p.nHeight + 1)
  · refine (inSlot_advanceTime hi hfork ?_).advanceTime env p
    by_contra hfail
    rw [Bool.not_eq_true] at hfail
    rw [advanceTime_fails_again hi hfail] at hok
    cases hok
  · rw [advanceTime_before_qpos (Fork.not_le.1 hfork), advanceTime_before_qpos (Fork.not_le.1 hfork)]

def position (r : QPRegistry) : Int × Uint256 := (r.nBlockHeight, r.hashBlockLastSnapshot)

theorem position_passSlot (env : QPEnv) (p : CBlockIndex) (n : Nat) (r : QPRegistry) :
    (r.passSlot env p n).position = r.position := by
  obtain ⟨ms, pr, br, fp, m, hpass⟩ := passSlot_frame env p n r
  rw [hpass]
  rfl

theorem position_advanceTime (env : QPEnv) (nTime : UInt32) (p : CBlockIndex) (r : QPRegistry) :
    (r.advanceTime env nTime p).1.position = r.position :=
  advanceTime_view position (fun r n => position_passSlot env p n r) fun _ _ => rfl

end

end Stealth.QPRegistry

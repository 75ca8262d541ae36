import Stealth.Qpos.PicoPower

/-!
The assignments of a run: over every run the statistics of a staker are those of the slots recorded for it.
-/

namespace Stealth.QPRegistry

variable {log : List Assignment} {r r' : QPRegistry}

open Assignment

def assignments : Recorder Assignment where
  slot r nID nReward :=
    match r.getStakerInternal nID with
    | none => []
    | some s => if s.isDisqualified then [] else [⟨nID, nReward⟩]
  renewal := []

def runAssignments (env : QPEnv) : QPRegistry × List Assignment → List Update → QPRegistry × List Assignment :=
  assignments.run env

structure Recorded (log : List Assignment) (r : QPRegistry) : Prop where
  prev : r.fPrevBlockWasProduced = log.head?.all fProduced
  known : ∀ a ∈ log, a.nID ≤ r.nIDCounter
  stakers : ∀ nID (s : QPStaker), r.mapStakers[nID]? = some s → s.Reflects (own nID log)

theorem recorded_empty (env : QPEnv) : Recorded [] (empty env) := by
  refine ⟨rfl, fun a h => absurd h List.not_mem_nil, fun nID s hs => ?_⟩
  rw [empty, getElem?_empty] at hs
  cases hs

theorem Recorded.carry (h : Recorded log r)
    (hstakers : CarriesStakers r r') (hprev : r'.fPrevBlockWasProduced = r.fPrevBlockWasProduced) :
    Recorded log r' := by
  refine ⟨hprev.trans h.prev, fun a ha => Nat.le_trans (h.known a ha) hstakers.counter, fun nID s' hs' => ?_⟩
  rcases hstakers.stakers nID s' hs' with ⟨s, hs, hcarry⟩ | ⟨hlt, hnew⟩
  · exact (h.stakers nID s hs).carry hcarry
  · rw [own_eq_nil fun a ha heq => absurd (h.known a ha) (by omega)]
    exact hnew

variable {nID : Nat} {s s' : QPStaker}

theorem Recorded.assign (h : Recorded log r) (hs : r.getStakerInternal nID = some s)
    (nReward : Option Int) (hs' : s'.Reflects ((⟨nID, nReward⟩, log.head?) :: own nID log))
    (hstakers : CarriesStakers (r.putStaker nID s') r')
    (hprev : r'.fPrevBlockWasProduced = nReward.isSome) :
    Recorded (⟨nID, nReward⟩ :: log) r' := by
  have hid := (getStakerInternal_eq_some.1 hs).1.2
  have hput : ∀ id (t : QPStaker), (r.putStaker nID s').mapStakers[id]? = some t →
      t.Reflects (own id (⟨nID, nReward⟩ :: log)) := by
    intro id t ht
    rw [getElem?_putStaker] at ht
    split at ht
    · next heq =>
      cases ht
      subst heq
      exact (own_cons_self ⟨nID, nReward⟩ log).symm ▸ hs'
    · next hne =>
      rw [own_cons_of_ne hne]
      exact h.stakers id t ht
  have hknown : ∀ a ∈ (⟨nID, nReward⟩ :: log : List Assignment), a.nID ≤ r.nIDCounter :=
    List.forall_mem_cons.2 ⟨hid, h.known⟩
  refine ⟨hprev, fun a ha => Nat.le_trans (hknown a ha) hstakers.counter, fun id t' ht' => ?_⟩
  rcases hstakers.stakers id t' ht' with ⟨t, ht, hcarry⟩ | ⟨hlt, hnew⟩
  · exact (hput id t ht).carry hcarry
  · have hlt : r.nIDCounter < id := hlt
    rw [own_eq_nil fun a ha heq => absurd (hknown a ha) (by omega)]
    exact hnew

theorem assignments_slot_eq_nil (h : ∀ s, r.getStakerInternal nID = some s → s.isDisqualified = true)
    (nReward : Option Int) :
    assignments.slot r nID nReward = [] := by
  cases hs : r.getStakerInternal nID with
  | none => simp [assignments, hs]
  | some s => simp [assignments, hs, h s hs]

theorem assignments_slot_eq_single (hs : r.getStakerInternal nID = some s)
    (hq : s.isDisqualified = false) (nReward : Option Int) :
    assignments.slot r nID nReward = [⟨nID, nReward⟩] := by
  simp [assignments, hs, hq]

/-- Disabling and disqualifying a staker keep what its record says. -/
theorem Recorded.assignSlot {s s₁ s' : QPStaker} {f : Bool} {balances : Map CPubKey Int}
    (h : Recorded log r) (hs : r.getStakerInternal nID = some s) (nReward : Option Int)
    (hs₁ : s₁.Reflects ((⟨nID, nReward⟩, log.head?) :: own nID log)) (hcarry : s₁.Carries s')
    (hr' : r' = { ((r.pushPower nID s f).putStaker nID s').recordSlot nReward.isSome with
      mapBalances := balances, fCurrentBlockWasProduced := r'.fCurrentBlockWasProduced })
    :
    Recorded (⟨nID, nReward⟩ :: log) r' := by
  refine h.assign hs nReward hs₁ ?_ (by rw [hr']; rfl)
  have hput : CarriesStakers (r.putStaker nID s₁) ((r.putStaker nID s₁).putStaker nID s') :=
    .putStaker (by rw [getElem?_putStaker, if_pos rfl]) hcarry
  refine hput.trans (.of_eq ?_ (by rw [hr']; rfl))
  rw [hr']
  exact (insert_insert ..).symm

theorem assignments_keeps : assignments.Keeps Recorded where
  quiet h hquiet := h.carry hquiet.stakers hquiet.prev
  missed {log r} env nID nHeight h := by
    rcases stakerMissedBlock_cases env r nID nHeight with ⟨hnone, heq⟩ | ⟨s, s', hs, hq, heq, -, hs'⟩
    · rw [heq, assignments_slot_eq_nil hnone]
      exact h
    · have hreflects := h.stakers nID s (getStakerInternal_eq_some.1 hs).2
      have hmissed := hreflects.missedBlock nID (getFork env.fTestNet nHeight) log.head?
      rw [← h.prev] at hmissed
      rw [assignments_slot_eq_single hs (by simp [QPStaker.isDisqualified, hq])]
      refine h.assignSlot hs none hmissed ?_ (by rw [heq]; rfl)
      rcases hs' with rfl | rfl
      · exact .refl _
      · exact ⟨rfl, rfl, rfl, Nat.le_refl _, rfl, rfl, rfl⟩
  produced {log r} env pindex nReward h := by
    cases hprod : r.stakerProducedBlock env pindex nReward with
    | none =>
      rw [assignments_slot_eq_nil (stakerProducedBlock_none hprod)]
      exact h
    | some r' =>
      obtain ⟨s, s', balances, hs, hq, hs', rfl⟩ := stakerProducedBlock_cases hprod
      have hreflects := h.stakers pindex.nStakerID s (getStakerInternal_eq_some.1 hs).2
      have hproduced := hreflects.producedBlock pindex.nStakerID pindex.hashBlock nReward log.head?
      rw [← h.prev] at hproduced
      rw [assignments_slot_eq_single hs hq]
      refine h.assignSlot hs (some nReward) hproduced ?_ rfl
      rcases hs' with rfl | ⟨-, rfl⟩
      · exact .refl _
      · exact ⟨rfl, rfl, rfl, Nat.le_refl _, rfl, rfl, rfl⟩
  renewal h hnew := by
    rw [newQueue_renewed hnew]
    exact h.carry (.of_eq rfl rfl) rfl

/-- After any run of updates of an empty registry, accepted or not, the statistics of every staker are those of
its assignments. Assigned blocks are the produced and the missed ones in the arithmetic of the counters, and
docked blocks are at most the missed ones while these have not wrapped. The very first assignment of all has
no other before it, and its bit of the previous-block history is set. -/
theorem statistics_of_run (env : QPEnv) (us : List Update) {r : QPRegistry} {log : List Assignment}
    (hrun : runAssignments env (empty env, []) us = (r, log)) (hs : r.mapStakers[nID]? = some s) :
    s.nBlocksAssigned = s.nBlocksProduced + s.nBlocksMissed ∧
    s.nBlocksAssigned = UInt32.ofNat (own nID log).length ∧
    s.nBlocksProduced = UInt32.ofNat (produced (own nID log)) ∧
    s.nBlocksMissed = UInt32.ofNat (missed (own nID log)) ∧
    (missed (own nID log) < 2 ^ 32 → s.nBlocksDocked ≤ s.nBlocksMissed) ∧
    (∀ i < QP_STAKER_RECENT_BLOCKS, ∀ a, (own nID log)[i]? = some a →
      s.bRecentBlocks.getLsbD i = a.1.fProduced ∧
      s.bPrevRecentBlocks.getLsbD i = (match a.2 with | none => true | some prev => prev.fProduced)) ∧
    s.nTotalEarned = earned (own nID log) := by
  have hrecorded := assignments_keeps.run env us (empty env, []) (recorded_empty env)
  rw [← runAssignments, hrun] at hrecorded
  have h := hrecorded.stakers nID s hs
  refine ⟨?_, h.assigned, h.produced, h.missed, fun hlt => ?_, fun i hi a ha => ⟨h.recent i hi a ha, ?_⟩, h.earned⟩
  · rw [h.assigned, h.produced, h.missed, ← UInt32.ofNat_add, produced_add_missed]
  · have hmissed : s.nBlocksMissed.toNat = missed (own nID log) := by
      rw [h.missed, UInt32.toNat_ofNat_of_lt' hlt]
    rw [UInt32.le_iff_toNat_le, hmissed]
    exact h.docked
  · rw [h.prevRecent i hi a ha]
    cases a.2 <;> rfl

def soloMiss : List Update :=
  soloUpdates ++ [.time ((soloBlock 3695101).nTime + 5) (soloBlock 3695100)]

theorem statistics_of_run_solo : ∃ r log s, runAssignments mainEnv (empty mainEnv, []) soloMiss = (r, log) ∧
    r.mapStakers[1]? = some s ∧ log = [⟨1, none⟩, ⟨1, some 47532⟩] ∧ s.nBlocksAssigned = 2 ∧
    s.nBlocksDocked ≤ s.nBlocksMissed ∧ s.bRecentBlocks.getLsbD 1 = true ∧ s.nTotalEarned = 47532 := by
  have hlog : (runAssignments mainEnv (empty mainEnv, []) soloMiss).2 = [⟨1, none⟩, ⟨1, some 47532⟩] := by
    decide +kernel
  have hstaker : (runAssignments mainEnv (empty mainEnv, []) soloMiss).1.mapStakers[1]?.isSome = true := by
    decide +kernel
  obtain ⟨r, log, hrun⟩ : ∃ r log, runAssignments mainEnv (empty mainEnv, []) soloMiss = (r, log) :=
    ⟨_, _, rfl⟩
  rw [hrun] at hlog hstaker
  obtain ⟨s, hs⟩ := Option.isSome_iff_exists.1 hstaker
  obtain rfl : log = _ := hlog
  obtain ⟨-, hassigned, -, -, hdocked, hbits, hearned⟩ := statistics_of_run mainEnv soloMiss hrun hs
  exact ⟨r, _, s, hrun, hs, rfl, hassigned, hdocked (by decide), (hbits 1 (by decide) _ rfl).1, hearned⟩

/-- The first block of all comes after no other, and the bit of the one before it is set. -/
theorem prevRecentBlocks_first : ∃ r log s,
    runAssignments mainEnv (empty mainEnv, []) (soloUpdates.take 3) = (r, log) ∧ r.mapStakers[1]? = some s ∧
    own 1 log = [(⟨1, some 47532⟩, none)] ∧ s.bPrevRecentBlocks.getLsbD 0 = true := by
  have hlog : own 1 (runAssignments mainEnv (empty mainEnv, []) (soloUpdates.take 3)).2 =
      [(⟨1, some 47532⟩, none)] := by
    decide +kernel
  have hbit : (runAssignments mainEnv (empty mainEnv, []) (soloUpdates.take 3)).1.mapStakers[1]?.any
      (fun s => s.bPrevRecentBlocks.getLsbD 0) = true := by
    decide +kernel
  obtain ⟨r, log, hrun⟩ : ∃ r log, runAssignments mainEnv (empty mainEnv, []) (soloUpdates.take 3) = (r, log) :=
    ⟨_, _, rfl⟩
  rw [hrun] at hlog hbit
  obtain ⟨s, hs, hset⟩ := (Option.any_eq_true _ _).1 hbit
  exact ⟨r, log, s, hrun, hs, hlog, hset⟩

end Stealth.QPRegistry

import Stealth.Qpos.Recorder
import Stealth.Qpos.Solo

/-!
The power that the registry reports: the exact share of the produced slots since the second last renewal, as
long as the 64 bit product fits.
-/

namespace Stealth.QPRegistry

/-- What happens to the power rounds. A slot is recorded with the weight of its staker. -/
inductive Mark where
  | slot (element : QPPowerElement)
  | renewal
  deriving DecidableEq

/-- The slots of a history, newest first, that come after all but the given number of its last renewals. -/
def slotsSince : Nat → List Mark → List QPPowerElement
  | _, [] => []
  | n, .slot element :: log => element :: slotsSince n log
  | 0, .renewal :: _ => []
  | n + 1, .renewal :: log => slotsSince n log

def recordedSlots (log : List Mark) : List QPPowerElement := slotsSince 1 log

def producedWeight (slots : List QPPowerElement) : Nat :=
  ((slots.filter fun e => e.fDidProduceBlock).map fun e => e.nWeight.toNat).sum

def totalWeight (slots : List QPPowerElement) : Nat := (slots.map fun e => e.nWeight.toNat).sum

/-- A slot of a staker that is known and qualified is recorded with its weight. -/
def marks : Recorder Mark where
  slot r nID nReward :=
    match r.getStakerWeight nID with
    | none => []
    | some nWeight => [.slot ⟨nID, nWeight, nReward.isSome⟩]
  renewal := [.renewal]

def runMarks (env : QPEnv) : QPRegistry × List Mark → List Update → QPRegistry × List Mark := marks.run env

def track (x : List QPPowerElement × List QPPowerElement) : List Mark → List QPPowerElement × List QPPowerElement
  | [] => x
  | .slot element :: log => ((track x log).1, (track x log).2 ++ [element])
  | .renewal :: log => ((track x log).2, [])

theorem track_append (x : List QPPowerElement × List QPPowerElement) (log' : List Mark) :
    ∀ log : List Mark, track x (log ++ log') = track (track x log') log
  | [] => rfl
  | .slot element :: log => by rw [List.cons_append, track, track, track_append x log' log]
  | .renewal :: log => by rw [List.cons_append, track, track, track_append x log' log]

theorem track_empty : ∀ log : List Mark, (track ([], []) log).2.reverse = slotsSince 0 log ∧
    ((track ([], []) log).1 ++ (track ([], []) log).2).reverse = slotsSince 1 log
  | [] => ⟨rfl, rfl⟩
  | .slot element :: log => by
    obtain ⟨hcurrent, hboth⟩ := track_empty log
    simp only [track, slotsSince, ← List.append_assoc]
    rw [List.reverse_append, List.reverse_append, hcurrent, hboth]
    exact ⟨rfl, rfl⟩
  | .renewal :: log => by
    obtain ⟨hcurrent, -⟩ := track_empty log
    simp only [track, slotsSince, List.append_nil]
    exact ⟨rfl, hcurrent⟩

variable {r : QPRegistry} {nID : Nat}

theorem rounds_pushPower {s : QPStaker} (hs : r.getStakerInternal nID = some s)
    (hq : s.isDisqualified = false) (nReward : Option Int) :
    (r.pushPower nID s nReward.isSome).rounds = track r.rounds (marks.slot r nID nReward) := by
  simp only [marks, getStakerWeight, hs, hq, Bool.false_eq_true, if_false]
  rfl

theorem marks_slot_eq_nil (h : ∀ s, r.getStakerInternal nID = some s → s.isDisqualified = true)
    (nReward : Option Int) :
    marks.slot r nID nReward = [] := by
  cases hs : r.getStakerInternal nID with
  | none => simp [marks, getStakerWeight, hs]
  | some s => simp [marks, getStakerWeight, hs, h s hs]

/-- The power rounds are those of the record. -/
theorem marks_keeps (x : List QPPowerElement × List QPPowerElement) :
    marks.Keeps fun log r => r.rounds = track x log where
  quiet h hquiet := hquiet.rounds.trans h
  missed {log r} env nID nHeight h := by
    rw [track_append, ← h]
    rcases stakerMissedBlock_cases env r nID nHeight with ⟨hnone, heq⟩ | ⟨s, s', hs, hq, heq, -⟩
    · rw [heq, marks_slot_eq_nil hnone]
      rfl
    · rw [heq, ← rounds_pushPower hs (by simp [QPStaker.isDisqualified, hq])]
      rfl
  produced {log r} env pindex nReward h := by
    rw [track_append, ← h]
    cases hprod : r.stakerProducedBlock env pindex nReward with
    | none =>
      rw [marks_slot_eq_nil (stakerProducedBlock_none hprod)]
      rfl
    | some r' =>
      obtain ⟨s, s', balances, hs, hq, -, rfl⟩ := stakerProducedBlock_cases hprod
      rw [Option.getD_some, ← rounds_pushPower hs hq]
      rfl
  renewal h hnew := by
    rw [track_append, ← h]
    rw [newQueue] at hnew
    split at hnew
    · cases hnew
    · cases hnew
      rfl

theorem totalWeight_append (a b : List QPPowerElement) :
    totalWeight (a ++ b) = totalWeight a + totalWeight b := by
  rw [totalWeight, List.map_append, List.sum_append]
  rfl

theorem producedWeight_append (a b : List QPPowerElement) :
    producedWeight (a ++ b) = producedWeight a + producedWeight b := by
  rw [producedWeight, List.filter_append, List.map_append, List.sum_append]
  rfl

theorem totalWeight_reverse (a : List QPPowerElement) : totalWeight a.reverse = totalWeight a := by
  rw [totalWeight, List.map_reverse, List.sum_reverse]
  rfl

theorem producedWeight_reverse (a : List QPPowerElement) : producedWeight a.reverse = producedWeight a := by
  rw [producedWeight, List.filter_reverse, List.map_reverse, List.sum_reverse]
  rfl

theorem producedWeight_le : ∀ slots : List QPPowerElement, producedWeight slots ≤ totalWeight slots
  | [] => Nat.le_refl 0
  | e :: slots => by
    have ih := producedWeight_le slots
    have hcons : totalWeight (e :: slots) = e.nWeight.toNat + totalWeight slots := List.sum_cons
    rw [producedWeight, List.filter_cons]
    split
    · rw [List.map_cons, List.sum_cons, hcons]
      exact Nat.add_le_add_left ih _
    · exact ih.trans (hcons ▸ Nat.le_add_left _ _)

theorem foldl_weight : ∀ (l : List QPPowerElement) (n : UInt32), n.toNat + totalWeight l < 2 ^ 32 →
    (l.foldl (fun n e => n + e.nWeight) n).toNat = n.toNat + totalWeight l ∧
      (l.foldl (fun n e => if e.fDidProduceBlock then n + e.nWeight else n) n).toNat =
        n.toNat + producedWeight l
  | [], _, _ => ⟨rfl, rfl⟩
  | e :: l, n, h => by
    have hcons : totalWeight (e :: l) = e.nWeight.toNat + totalWeight l := List.sum_cons
    have hadd : (n + e.nWeight).toNat = n.toNat + e.nWeight.toNat := by
      rw [UInt32.toNat_add, Nat.mod_eq_of_lt (by omega)]
    obtain ⟨htotal, hproduced⟩ := foldl_weight l (n + e.nWeight) (by omega)
    obtain ⟨-, hmissed⟩ := foldl_weight l n (by omega)
    rw [List.foldl_cons, List.foldl_cons]
    refine ⟨by omega, ?_⟩
    cases hp : e.fDidProduceBlock with
    | true =>
      have hslot : producedWeight (e :: l) = e.nWeight.toNat + producedWeight l := by
        rw [producedWeight, List.filter_cons_of_pos hp]
        exact List.sum_cons
      rw [if_pos rfl, hproduced]
      omega
    | false =>
      have hslot : producedWeight (e :: l) = producedWeight l := by
        rw [producedWeight, List.filter_cons_of_neg (by rw [hp]; exact Bool.false_ne_true)]
        rfl
      rw [if_neg Bool.false_ne_true, hmissed, hslot]

theorem toNat_getWeight {round : QPPowerRound} (h : totalWeight round.vElements < 2 ^ 32) :
    round.getTotalWeight.toNat = totalWeight round.vElements ∧
      round.getWeight.toNat = producedWeight round.vElements := by
  obtain ⟨htotal, hproduced⟩ := foldl_weight round.vElements 0 (by rwa [UInt32.toNat_zero, Nat.zero_add])
  rw [UInt32.toNat_zero, Nat.zero_add] at htotal hproduced
  exact ⟨htotal, hproduced⟩

theorem toNat_getPicoPowerInternal {w t : Nat}
    (hw : (r.powerRoundPrev.getWeight + r.powerRoundCurrent.getWeight).toNat = w)
    (ht : (r.powerRoundPrev.getTotalWeight + r.powerRoundCurrent.getTotalWeight).toNat = t)
    (hlimit : w * 10 ^ 12 < 2 ^ 64) : r.getPicoPowerInternal.toNat = 10 ^ 12 * w / t := by
  rw [getPicoPowerInternal]
  split
  · next hzero =>
    have hz : t = 0 := by
      rw [← ht, ← UInt32.toNat_toUInt64, hzero]
      rfl
    rw [hz, Nat.div_zero]
    rfl
  · rw [UInt64.toNat_div, UInt64.toNat_mul, UInt32.toNat_toUInt64, UInt32.toNat_toUInt64, hw, ht,
      show TRIL.toNat = 10 ^ 12 from rfl, Nat.mod_eq_of_lt hlimit, Nat.mul_comm]

/-- After any run of updates of an empty registry, accepted or not, in which the weights recorded since the
second last renewal are at most 18446744 in total, nothing wraps in the computation of the power, and it is
the share of the produced slots, rounded down, in parts of one trillion. -/
theorem picoPower_of_run (env : QPEnv) (us : List Update) {log : List Mark}
    (hrun : runMarks env (empty env, []) us = (r, log))
    (hlimit : totalWeight (recordedSlots log) ≤ 18446744) :
    (r.powerRoundPrev.getWeight + r.powerRoundCurrent.getWeight).toNat =
      producedWeight (recordedSlots log) ∧
    (r.powerRoundPrev.getTotalWeight + r.powerRoundCurrent.getTotalWeight).toNat =
      totalWeight (recordedSlots log) ∧
    producedWeight (recordedSlots log) * 10 ^ 12 < 2 ^ 64 ∧ r.getPicoPowerInternal.toNat =
      10 ^ 12 * producedWeight (recordedSlots log) / totalWeight (recordedSlots log) ∧
    r.getPicoPowerInternal.toNat ≤ 10 ^ 12 := by
  have hrounds := (marks_keeps ([], [])).run env us (empty env, []) rfl
  rw [← runMarks, hrun] at hrounds
  obtain ⟨-, hslots⟩ := track_empty log
  have hprev : r.powerRoundPrev.vElements = (track ([], []) log).1 := congrArg Prod.fst hrounds
  have hcurrent : r.powerRoundCurrent.vElements = (track ([], []) log).2 := congrArg Prod.snd hrounds
  rw [← hprev, ← hcurrent] at hslots
  have htotal : totalWeight (recordedSlots log) =
      totalWeight r.powerRoundPrev.vElements + totalWeight r.powerRoundCurrent.vElements := by
    rw [recordedSlots, ← hslots, totalWeight_reverse, totalWeight_append]
  have hproduced : producedWeight (recordedSlots log) =
      producedWeight r.powerRoundPrev.vElements + producedWeight r.powerRoundCurrent.vElements := by
    rw [recordedSlots, ← hslots, producedWeight_reverse, producedWeight_append]
  have hle := producedWeight_le (recordedSlots log)
  obtain ⟨htp, hwp⟩ := @toNat_getWeight r.powerRoundPrev (by omega)
  obtain ⟨htc, hwc⟩ := @toNat_getWeight r.powerRoundCurrent (by omega)
  have hw : (r.powerRoundPrev.getWeight + r.powerRoundCurrent.getWeight).toNat =
      producedWeight (recordedSlots log) := by
    rw [UInt32.toNat_add, hwp, hwc, Nat.mod_eq_of_lt (by omega), hproduced]
  have ht : (r.powerRoundPrev.getTotalWeight + r.powerRoundCurrent.getTotalWeight).toNat =
      totalWeight (recordedSlots log) := by
    rw [UInt32.toNat_add, htp, htc, Nat.mod_eq_of_lt (by omega), htotal]
  have hpower : r.getPicoPowerInternal.toNat =
      10 ^ 12 * producedWeight (recordedSlots log) / totalWeight (recordedSlots log) :=
    toNat_getPicoPowerInternal hw ht (by omega)
  refine ⟨hw, ht, by omega, hpower, ?_⟩
  rw [hpower]
  exact Nat.div_le_of_le_mul (by rw [Nat.mul_comm]; exact Nat.mul_le_mul_right _ hle)

/-- The only staker is bought and enabled, has a block, and its next slot begins. -/
def soloUpdates : List Update :=
  [.block 0 .noSnaps false (soloBlock 3657599) (soloBlock 3657600) ∅,
    .block 0 .noSnaps false (soloBlock 3657600) (soloBlock 3657601) ∅,
    .block 0 .noSnaps false (soloBlock 3695099) (soloBlock 3695100) ∅,
    .time (soloBlock 3695101).nTime (soloBlock 3695100)]

theorem picoPower_of_run_solo : ∃ r log, runMarks mainEnv (empty mainEnv, []) soloUpdates = (r, log) ∧
    recordedSlots log = [⟨1, 1, true⟩] ∧ r.getPicoPowerInternal.toNat = 10 ^ 12 := by
  have hslots : recordedSlots (runMarks mainEnv (empty mainEnv, []) soloUpdates).2 = [⟨1, 1, true⟩] := by
    decide +kernel
  obtain ⟨r, log, hrun⟩ : ∃ r log, runMarks mainEnv (empty mainEnv, []) soloUpdates = (r, log) :=
    ⟨_, _, rfl⟩
  rw [hrun] at hslots
  have hpower := (picoPower_of_run mainEnv soloUpdates hrun (by rw [hslots]; decide)).2.2.2.1
  rw [hslots] at hpower
  exact ⟨r, log, hrun, hslots, hpower⟩

end Stealth.QPRegistry

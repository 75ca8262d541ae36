import Mathlib.Algebra.BigOperators.Group.List.Basic
import Stealth.Qpos.Frame

/-! The statistics of a staker as functions of its assignments, the slots that were recorded for it. -/

namespace Stealth

variable {nID : Nat} {s s' : QPStaker} {history : List (Assignment × Option Assignment)} {r r' : QPRegistry}

theorem getLsbD_shiftIn {w : Nat} (b : BitVec w) (hit : Bool) {i : Nat} (hi : i < w) :
    (shiftIn b hit).getLsbD i = if i = 0 then hit else b.getLsbD (i - 1) := by
  have hlow : (if hit then (1 : BitVec w) else 0).getLsbD i = (hit && decide (i = 0)) := by
    cases hit with
    | true => simp [hi]
    | false => simp
  rw [shiftIn, BitVec.getLsbD_or, BitVec.getLsbD_shiftLeft, hlow]
  by_cases hzero : i = 0
  · simp [hzero]
  · simp [hzero, hi]

/-- A recorded slot: the reward of its block, if there is one. -/
structure Assignment where
  nID : Nat
  nReward : Option Int
  deriving DecidableEq, Repr

namespace Assignment

def fProduced (a : Assignment) : Bool := a.nReward.isSome

/-- The assignments of a staker in a history, latest first, each with the one just before it, of whichever
staker. -/
def own (nID : Nat) : List Assignment → List (Assignment × Option Assignment)
  | [] => []
  | a :: log => if a.nID = nID then (a, log.head?) :: own nID log else own nID log

theorem own_cons_self (a : Assignment) (log : List Assignment) :
    own a.nID (a :: log) = (a, log.head?) :: own a.nID log := if_pos rfl

theorem own_cons_of_ne {a : Assignment} (h : a.nID ≠ nID) (log : List Assignment) :
    own nID (a :: log) = own nID log := if_neg h

theorem own_eq_nil {log : List Assignment} (h : ∀ a ∈ log, a.nID ≠ nID) : own nID log = [] := by
  induction log with
  | nil => rfl
  | cons a log ih =>
    obtain ⟨ha, hlog⟩ := List.forall_mem_cons.1 h
    rw [own_cons_of_ne ha, ih hlog]

def produced (history : List (Assignment × Option Assignment)) : Nat :=
  (history.filter fun a => a.1.fProduced).length

def missed (history : List (Assignment × Option Assignment)) : Nat :=
  (history.filter fun a => !a.1.fProduced).length

def earned (history : List (Assignment × Option Assignment)) : Int :=
  (history.filterMap fun a => a.1.nReward).sum

theorem produced_add_missed (history : List (Assignment × Option Assignment)) :
    produced history + missed history = history.length := by
  induction history with
  | nil => rfl
  | cons a history ih =>
    rw [List.length_cons, ← ih, produced, missed, produced, missed, List.filter_cons, List.filter_cons]
    cases a.1.fProduced with
    | true => simp only [if_true, Bool.not_true, Bool.false_eq_true, if_false, List.length_cons]; omega
    | false => simp only [if_true, Bool.not_false, Bool.false_eq_true, if_false, List.length_cons]; omega

end Assignment

open Assignment

/-- The statistics of a staker are those of its assignments. The bits of the histories that are older than its
assignments are not. -/
structure QPStaker.Reflects (s : QPStaker) (history : List (Assignment × Option Assignment)) : Prop where
  assigned : s.nBlocksAssigned = UInt32.ofNat history.length
  produced : s.nBlocksProduced = UInt32.ofNat (produced history)
  missed : s.nBlocksMissed = UInt32.ofNat (missed history)
  docked : s.nBlocksDocked.toNat ≤ Assignment.missed history
  recent : ∀ i < QP_STAKER_RECENT_BLOCKS, ∀ a, history[i]? = some a → s.bRecentBlocks.getLsbD i = a.1.fProduced
  prevRecent : ∀ i < QP_STAKER_RECENT_BLOCKS, ∀ a, history[i]? = some a →
    s.bPrevRecentBlocks.getLsbD i = a.2.all fProduced
  earned : s.nTotalEarned = earned history

/-- Statistics are carried over from one staker to another. -/
structure QPStaker.Carries (s s' : QPStaker) : Prop where
  assigned : s'.nBlocksAssigned = s.nBlocksAssigned
  produced : s'.nBlocksProduced = s.nBlocksProduced
  missed : s'.nBlocksMissed = s.nBlocksMissed
  docked : s'.nBlocksDocked.toNat ≤ s.nBlocksDocked.toNat
  recent : s'.bRecentBlocks = s.bRecentBlocks
  prevRecent : s'.bPrevRecentBlocks = s.bPrevRecentBlocks
  earned : s'.nTotalEarned = s.nTotalEarned

namespace QPStaker

theorem Carries.refl (s : QPStaker) : Carries s s := ⟨rfl, rfl, rfl, Nat.le_refl _, rfl, rfl, rfl⟩

theorem Carries.trans {s'' : QPStaker} (h : Carries s s') (h' : Carries s' s'') : Carries s s'' where
  assigned := h'.assigned.trans h.assigned
  produced := h'.produced.trans h.produced
  missed := h'.missed.trans h.missed
  docked := Nat.le_trans h'.docked h.docked
  recent := h'.recent.trans h.recent
  prevRecent := h'.prevRecent.trans h.prevRecent
  earned := h'.earned.trans h.earned

theorem Carries.resetDocked (s : QPStaker) : Carries s s.resetDocked :=
  ⟨rfl, rfl, rfl, Nat.zero_le _, rfl, rfl, rfl⟩

theorem Carries.setDelegatePayout (s : QPStaker) (pcm : Int) : Carries s (s.setDelegatePayout pcm).1 := by
  rw [QPStaker.setDelegatePayout]
  split <;> exact ⟨rfl, rfl, rfl, Nat.le_refl _, rfl, rfl, rfl⟩

theorem Reflects.carry (h : Reflects s history) (hs : Carries s s') : Reflects s' history where
  assigned := hs.assigned.trans h.assigned
  produced := hs.produced.trans h.produced
  missed := hs.missed.trans h.missed
  docked := Nat.le_trans hs.docked h.docked
  recent := hs.recent ▸ h.recent
  prevRecent := hs.prevRecent ▸ h.prevRecent
  earned := hs.earned.trans h.earned

theorem reflects_ofDetails (deet : QPTxDetails) (owner : CPubKey) : Reflects (ofDetails deet owner) [] :=
  ⟨rfl, rfl, rfl, Nat.le_refl 0, fun _ _ _ h => (nomatch h), fun _ _ _ h => (nomatch h), rfl⟩

theorem shiftIn_reflects {α : Type} {b : QPRecentBlocks} {history : List α} {f : α → Bool}
    (h : ∀ i < QP_STAKER_RECENT_BLOCKS, ∀ a, history[i]? = some a → b.getLsbD i = f a) (new : α) :
    ∀ i < QP_STAKER_RECENT_BLOCKS, ∀ a, (new :: history)[i]? = some a →
      (shiftIn b (f new)).getLsbD i = f a := by
  intro i hi a ha
  rw [getLsbD_shiftIn b (f new) hi]
  cases i with
  | zero =>
    cases ha
    exact if_pos rfl
  | succ i =>
    rw [if_neg (Nat.succ_ne_zero i), Nat.add_sub_cancel]
    exact h i (Nat.lt_of_succ_lt hi) a ha

theorem Reflects.producedBlock
    (h : Reflects s history) (nID : Nat) (hashBlock : Uint256) (nReward : Int) (prev : Option Assignment) :
    Reflects (s.producedBlock hashBlock nReward (prev.all fProduced)) ((⟨nID, some nReward⟩, prev) :: history) where
  assigned := by
    rw [List.length_cons, UInt32.ofNat_add, ← h.assigned]
    rfl
  produced := by
    have hcount : Assignment.produced ((⟨nID, some nReward⟩, prev) :: history) = Assignment.produced history + 1 := rfl
    rw [hcount, UInt32.ofNat_add, ← h.produced]
    rfl
  missed := h.missed
  docked := h.docked
  recent := shiftIn_reflects (f := fun a : Assignment × Option Assignment => a.1.fProduced) h.recent (⟨nID, some nReward⟩, prev)
  prevRecent := shiftIn_reflects (f := fun a : Assignment × Option Assignment => a.2.all fProduced) h.prevRecent (⟨nID, some nReward⟩, prev)
  earned := by
    have hsum : Assignment.earned ((⟨nID, some nReward⟩, prev) :: history) = nReward + Assignment.earned history :=
      List.sum_cons
    rw [hsum, ← h.earned, Int.add_comm]
    rfl

theorem Reflects.missedBlock (h : Reflects s history) (nID : Nat) (nFork : Fork) (prev : Option Assignment) :
    Reflects (s.missedBlock (prev.all fProduced) nFork) ((⟨nID, none⟩, prev) :: history) where
  assigned := by
    rw [List.length_cons, UInt32.ofNat_add, ← h.assigned]
    rfl
  produced := h.produced
  missed := by
    have hcount : Assignment.missed ((⟨nID, none⟩, prev) :: history) = Assignment.missed history + 1 := rfl
    rw [hcount, UInt32.ofNat_add, ← h.missed]
    rfl
  docked := by
    have hcount : Assignment.missed ((⟨nID, none⟩, prev) :: history) = Assignment.missed history + 1 := rfl
    have hdocked := h.docked
    have hone : (1 : UInt32).toNat = 1 := rfl
    have hadd : (s.nBlocksDocked + 1).toNat ≤ s.nBlocksDocked.toNat + 1 := by
      rw [UInt32.toNat_add, hone]
      exact Nat.mod_le _ _
    rw [hcount, QPStaker.missedBlock, updatePrevRecentBlocks]
    dsimp only
    split <;> omega
  recent := shiftIn_reflects (f := fun a : Assignment × Option Assignment => a.1.fProduced) h.recent (⟨nID, none⟩, prev)
  prevRecent := shiftIn_reflects (f := fun a : Assignment × Option Assignment => a.2.all fProduced) h.prevRecent (⟨nID, none⟩, prev)
  earned := h.earned

end QPStaker

namespace QPRegistry

/-- A staker of the later registry carries the statistics of the same staker over, or it is new. -/
structure CarriesStakers (r r' : QPRegistry) : Prop where
  counter : r.nIDCounter ≤ r'.nIDCounter
  stakers : ∀ nID s', r'.mapStakers[nID]? = some s' →
    (∃ s, r.mapStakers[nID]? = some s ∧ s.Carries s') ∨ (r.nIDCounter < nID ∧ s'.Reflects [])

theorem CarriesStakers.of_eq (hs : r'.mapStakers = r.mapStakers)
    (hn : r'.nIDCounter = r.nIDCounter) : CarriesStakers r r' := by
  refine ⟨Nat.le_of_eq hn.symm, fun nID s' h => .inl ⟨s', ?_, .refl s'⟩⟩
  rw [← hs]
  exact h

theorem CarriesStakers.refl (r : QPRegistry) : CarriesStakers r r := .of_eq rfl rfl

theorem CarriesStakers.trans {r'' : QPRegistry} (h : CarriesStakers r r') (h' : CarriesStakers r' r'') :
    CarriesStakers r r'' := by
  refine ⟨Nat.le_trans h.counter h'.counter, fun nID s'' hs'' => ?_⟩
  rcases h'.stakers nID s'' hs'' with ⟨s', hs', hcarry'⟩ | ⟨hlt, hnew⟩
  · rcases h.stakers nID s' hs' with ⟨s, hs, hcarry⟩ | ⟨hlt, hnew⟩
    · exact .inl ⟨s, hs, hcarry.trans hcarry'⟩
    · exact .inr ⟨hlt, hnew.carry hcarry'⟩
  · exact .inr ⟨Nat.lt_of_le_of_lt h.counter hlt, hnew⟩

theorem getElem?_putStaker (r : QPRegistry) (n nID : Nat) (s : QPStaker) :
    (r.putStaker n s).mapStakers[nID]? = if n = nID then some s else r.mapStakers[nID]? := by
  simp only [putStaker, getElem?_insert, Std.LawfulEqCmp.compare_eq_iff_eq]

theorem CarriesStakers.putStaker {n : Nat} (hs : r.mapStakers[n]? = some s)
    (hcarry : s.Carries s') : CarriesStakers r (r.putStaker n s') := by
  refine ⟨Nat.le_refl _, fun nID t ht => .inl ?_⟩
  rw [getElem?_putStaker] at ht
  split at ht
  · next heq =>
    cases ht
    exact ⟨s, heq ▸ hs, hcarry⟩
  · exact ⟨t, ht, .refl t⟩

theorem CarriesStakers.map {f : Nat → QPStaker → QPStaker}
    (hr' : r'.mapStakers = r.mapStakers.map f) (hn : r'.nIDCounter = r.nIDCounter)
    (hf : ∀ nID (s : QPStaker), s.Carries (f nID s)) : CarriesStakers r r' := by
  refine ⟨Nat.le_of_eq hn.symm, fun nID s' hs' => .inl ?_⟩
  rw [hr', getElem?_map] at hs'
  obtain ⟨s, hs, rfl⟩ := Option.map_eq_some_iff.1 hs'
  exact ⟨s, hs, hf _ s⟩

theorem CarriesStakers.addStaker (r : QPRegistry) (hs : s.Reflects []) :
    CarriesStakers r ({ r with nIDCounter := r.nIDCounter + 1 }.putStaker (r.nIDCounter + 1) s) := by
  refine ⟨Nat.le_succ _, fun nID t ht => ?_⟩
  rw [getElem?_putStaker] at ht
  split at ht
  · next heq =>
    cases ht
    exact .inr ⟨by omega, hs⟩
  · exact .inl ⟨t, ht, .refl t⟩

theorem reflects_stakerOfPurchase {deet : QPTxDetails} (h : stakerOfPurchase deet = some s) :
    s.Reflects [] := by
  have hkeys : ∀ owner manager delegate controller,
      (({ QPStaker.ofDetails deet owner with
          pubkeyManager := manager, pubkeyDelegate := delegate
          pubkeyController := controller } : QPStaker).setDelegatePayout deet.pcm).1.Reflects [] := by
    intro owner manager delegate controller
    refine (QPStaker.reflects_ofDetails deet owner).carry (QPStaker.Carries.trans ?_ (.setDelegatePayout _ _))
    exact ⟨rfl, rfl, rfl, Nat.le_refl _, rfl, rfl, rfl⟩
  rw [stakerOfPurchase] at h
  split at h
  · cases h
  · dsimp only at h
    split at h
    · split at h
      · cases h
        exact QPStaker.reflects_ofDetails deet _
      · cases h
    · split at h
      · split at h
        · split at h
          · cases h
            exact hkeys _ _ _ _
          · cases h
        · split at h
          · cases h
            exact hkeys _ _ _ _
          · cases h
        · cases h
      · cases h

theorem OpStep.carries (h : OpStep r r') : CarriesStakers r r' := by
  cases h with
  | account h =>
    refine .of_eq ?_ ?_
    · rw [h.accountsOnly]
    · rw [h.accountsOnly]
  | names aliases owners lookup => exact .of_eq rfl rfl
  | edit hs h =>
    refine .putStaker hs ⟨?_, ?_, ?_, ?_, ?_, ?_, ?_⟩
    iterate 7 rw [h]
  | add h => exact .addStaker r (reflects_stakerOfPurchase h)

theorem OpSteps.carries (h : OpSteps r r') : CarriesStakers r r' :=
  h.rule .refl (fun _ _ _ => .trans) fun _ _ => OpStep.carries

end QPRegistry

end Stealth

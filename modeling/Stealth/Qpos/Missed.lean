import Stealth.Qpos.Frame
import Stealth.Qpos.Mode

/-!
A miss changes one staker, a renewed queue lists the enabled stakers, and automatic disabling leaves some
enabled.
-/

namespace Stealth.QPRegistry

variable {r : QPRegistry} {nID : Nat} {s : QPStaker}

theorem swapAt_perm (v : List Nat) (i j : Nat) : (swapAt v i j).Perm v := by
  unfold swapAt
  split
  · next a b ha hb =>
    obtain ⟨hi, rfl⟩ := List.getElem?_eq_some_iff.1 ha
    obtain ⟨hj, rfl⟩ := List.getElem?_eq_some_iff.1 hb
    exact List.set_set_perm hi hj
  · exact List.Perm.refl v

theorem shuffleIDs_perm (draw : Nat → Nat) (vIDs : List Nat) : (shuffleIDs draw vIDs).Perm vIDs := by
  have h : ∀ (is : List Nat) (v : List Nat),
      (is.foldl (fun v i => swapAt v i (draw i)) v).Perm v := by
    intro is
    induction is with
    | nil => exact fun v => List.Perm.refl v
    | cons i rest ih => exact fun v => (ih _).trans (swapAt_perm v i (draw i))
  exact h _ vIDs

theorem mem_enabledIDs : nID ∈ r.enabledIDs ↔ ∃ s, r.mapStakers[nID]? = some s ∧ s.isEnabled = true := by
  simp only [enabledIDs, List.mem_map, List.mem_filter, Prod.exists, exists_and_right,
    exists_eq_right, mem_toList_iff_getElem?_eq_some]

theorem nodup_enabledIDs (r : QPRegistry) : r.enabledIDs.Nodup := by
  have hd : r.mapStakers.toList.Pairwise fun a b => a.1 ≠ b.1 :=
    (Std.ExtTreeMap.distinct_keys_toList (t := r.mapStakers)).imp fun h heq =>
      h (Std.LawfulEqCmp.compare_eq_iff_eq.2 heq)
  exact List.pairwise_map.2 (hd.filter _)

theorem getNumberEnabled_eq (r : QPRegistry) : r.getNumberEnabledInternal = r.enabledIDs.length := by
  simp [getNumberEnabledInternal, getNumberOf, enabledIDs]

theorem enabledIDs_perm_of_iff {r' : QPRegistry}
    (h : ∀ nID, nID ∈ r.enabledIDs ↔ nID ∈ r'.enabledIDs) : r.enabledIDs.Perm r'.enabledIDs :=
  (List.perm_ext_iff_of_nodup (nodup_enabledIDs r) (nodup_enabledIDs r')).2 h

theorem insert_insert (m : Map Nat QPStaker) (nID : Nat) (s s' : QPStaker) :
    (m.insert nID s).insert nID s' = m.insert nID s' := by
  refine ext_getElem? fun k => ?_
  simp only [getElem?_insert]
  split <;> rfl

theorem mem_enabledIDs_putStaker {id : Nat} : id ∈ (r.putStaker nID s).enabledIDs ↔
      if id = nID then s.isEnabled = true else id ∈ r.enabledIDs := by
  simp only [mem_enabledIDs, putStaker, getElem?_insert,
    Std.LawfulEqCmp.compare_eq_iff_eq]
  by_cases h : id = nID
  · simp [h]
  · simp [h, Ne.symm h]

/-- What a miss does to the staker: one more miss, the same qualification, and it stops being
enabled only while more than three stakers are. -/
structure MissedStaker (r : QPRegistry) (s s' : QPStaker) : Prop where
  missed : s'.nBlocksMissed = s.nBlocksMissed + 1
  qualified : s'.fQualified = s.fQualified
  enabled : s'.isEnabled = true → s.isEnabled = true
  disabled : s.isEnabled = true → s'.isEnabled = false → 3 < r.enabledIDs.length

theorem stakerMissedBlock_spec (env : QPEnv)
    (nHeight : Int) (hs : r.getStakerInternal nID = some s) (hq : s.fQualified = true) :
    ∃ s', r.stakerMissedBlock env nID nHeight =
        ((r.pushPower nID s false).putStaker nID s').recordSlot false ∧ MissedStaker r s s' ∧
      (s' = s.missedBlock r.fPrevBlockWasProduced (getFork env.fTestNet nHeight) ∨
        s' = (s.missedBlock r.fPrevBlockWasProduced (getFork env.fTestNet nHeight)).disable nHeight) := by
  have hdq : s.isDisqualified = false := by simp [QPStaker.isDisqualified, hq]
  obtain ⟨⟨hpos, hle⟩, hmap⟩ := getStakerInternal_eq_some.1 hs
  set s₁ := s.missedBlock r.fPrevBlockWasProduced (getFork env.fTestNet nHeight) with hs₁
  set r₁ := (r.pushPower nID s false).putStaker nID s₁ with hr₁
  have hplain : MissedStaker r s s₁ :=
    ⟨rfl, rfl, fun h => h, fun h h' => absurd (h.symm.trans h') (by decide)⟩
  have hget : r₁.getStakerInternal nID = some s₁ :=
    getStakerInternal_eq_some.2 ⟨⟨hpos, hle⟩, by simp [hr₁, putStaker]⟩
  -- the count of enabled stakers is taken after the miss, which does not change it
  have hcount : r₁.getNumberEnabledInternal = r.enabledIDs.length := by
    rw [getNumberEnabled_eq]
    refine (enabledIDs_perm_of_iff fun id => ?_).length_eq
    rw [hr₁, mem_enabledIDs_putStaker]
    split
    · next h => subst h; exact ⟨fun he => mem_enabledIDs.2 ⟨s, hmap, he⟩, fun he => by
      obtain ⟨t, ht, hte⟩ := mem_enabledIDs.1 he
      rw [hmap] at ht
      cases ht
      exact hte⟩
    · exact Iff.rfl
  unfold stakerMissedBlock
  simp only [hs, hdq, Bool.false_eq_true, if_false, ← hs₁, ← hr₁]
  split
  · unfold disableStakerIfNecessary
    split
    · exact ⟨s₁, rfl, hplain, .inl rfl⟩
    · split
      · next hcond =>
        simp only [Bool.and_eq_true, decide_eq_true_eq, hcount] at hcond
        unfold disableStaker
        simp only [hget]
        split
        · exact ⟨s₁, rfl, hplain, .inl rfl⟩
        · next hdis =>
          refine ⟨s₁.disable nHeight, ?_, ⟨rfl, rfl, fun _ => ?_, fun _ _ => hcond.2⟩, .inr rfl⟩
          · simp only [hr₁, putStaker, pushPower, recordSlot, insert_insert]
          · have hs₁e : s₁.isEnabled = true := by
              simp only [QPStaker.isDisabled, Bool.or_eq_true, bne_iff_ne, ne_eq, not_or,
                not_not, Bool.not_eq_true, Bool.not_eq_false'] at hdis
              simp [QPStaker.isEnabled, hdis]
            exact hs₁e
      · exact ⟨s₁, rfl, hplain, .inl rfl⟩
  · exact ⟨s₁, rfl, hplain, .inl rfl⟩

theorem stakerMissedBlock_cases (env : QPEnv) (r : QPRegistry) (nID : Nat) (nHeight : Int) :
    ((∀ s, r.getStakerInternal nID = some s → s.isDisqualified = true) ∧
      r.stakerMissedBlock env nID nHeight = r) ∨
      ∃ s s', r.getStakerInternal nID = some s ∧ s.fQualified = true ∧
        r.stakerMissedBlock env nID nHeight =
          ((r.pushPower nID s false).putStaker nID s').recordSlot false ∧ MissedStaker r s s' ∧
        (s' = s.missedBlock r.fPrevBlockWasProduced (getFork env.fTestNet nHeight) ∨
          s' = (s.missedBlock r.fPrevBlockWasProduced (getFork env.fTestNet nHeight)).disable nHeight) := by
  cases hs : r.getStakerInternal nID with
  | none => exact .inl ⟨fun _ h => (nomatch h), by simp only [stakerMissedBlock, hs]⟩
  | some s =>
    cases hq : s.fQualified with
    | false =>
      have hdq : s.isDisqualified = true := by simp [QPStaker.isDisqualified, hq]
      exact .inl ⟨fun t h => by cases h; exact hdq, by simp [stakerMissedBlock, hs, hdq]⟩
    | true =>
      obtain ⟨s', h⟩ := stakerMissedBlock_spec env nHeight hs hq
      exact .inr ⟨s, s', rfl, hq, h⟩

end Stealth.QPRegistry

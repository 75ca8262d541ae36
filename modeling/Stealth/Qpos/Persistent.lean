import Stealth.Qpos.Snapshot

/-!
Registries with the same persistent state: what a snapshot records, apart from the hash of the last
snapshot.
-/

namespace Stealth.QPRegistry

open Loop

variable {r r' s s' : QPRegistry} {p b : CBlockIndex}

def SameData (r r' : QPRegistry) : Prop := (r.withMode 0 0).serialize = (r'.withMode 0 0).serialize

instance (r r' : QPRegistry) : Decidable (SameData r r') :=
  inferInstanceAs (Decidable ((r.withMode 0 0).serialize = (r'.withMode 0 0).serialize))

theorem SameData.refl (r : QPRegistry) : SameData r r := rfl

theorem SameData.symm (h : SameData r r') : SameData r' r := Eq.symm h

theorem SameData.trans {r'' : QPRegistry} (h : SameData r r') (h' : SameData r' r'') :
    SameData r r'' := Eq.trans h h'

theorem SameState.sameData (h : SameState r r') : SameData r r' :=
  congrArg serialize h

theorem Alike.sameData (h : Alike r r') : SameData r r' := by
  have hdata := congrArg (fun d : Serialized => { d with hashBlockLastSnapshot := 0 }) h.data
  exact hdata

theorem sameData_override (x : QPRegistry) (o o' : Override) : SameData (x.override o) (x.override o') := rfl

theorem sameData_unserialize (target r : QPRegistry) : SameData (target.unserialize r.serialize) r := rfl

theorem SameData.exists_override (h : SameData r r') : ∃ x o o', r = override x o ∧ r' = override x o' := by
  refine ⟨r, ⟨none, none, none, none⟩, ⟨some r'.nHeightExitedReplay, some r'.hashBlockLastSnapshot,
    some r'.fShouldRollback, some r'.mapCertifiedNodes⟩, rfl, ?_⟩
  calc r' = (r'.unserialize (r'.withMode 0 0).serialize).override ⟨none, some r'.hashBlockLastSnapshot,
        none, none⟩ := rfl
    _ = (r'.unserialize (r.withMode 0 0).serialize).override ⟨none, some r'.hashBlockLastSnapshot,
        none, none⟩ := by rw [h]

section
variable (env : QPEnv) (pindex : CBlockIndex) {r r' : QPRegistry}

theorem sameData_checkPower (r : QPRegistry) : SameData (r.checkPower env) r := by
  rw [QPRegistry.checkPower]
  split
  · rfl
  · split <;> rfl

theorem overridden_sameData : Overridden SameData where
  exists_override h := by
    obtain ⟨x, o, o', hr, hr'⟩ := h.exists_override
    exact ⟨x, o, o', hr, hr', fun y => sameData_override y o o'⟩
  exit h := h
  checkPower env _ _ h := (sameData_checkPower env _).trans (h.trans (sameData_checkPower env _).symm)

theorem SameData.advanceTime (h : SameData r r') (nTime : UInt32) :
    SameData (r.advanceTime env nTime pindex).1 (r'.advanceTime env nTime pindex).1 ∧
      (r.advanceTime env nTime pindex).2 = (r'.advanceTime env nTime pindex).2 :=
  overridden_sameData.advanceTime env pindex h nTime

theorem SameData.crossFork (h : SameData r r') (nFork : Fork) :
    SameData (r.crossFork env nFork) (r'.crossFork env nFork) := overridden_sameData.crossFork env h nFork

theorem SameData.beforeAdvance (h : SameData r r') (nSnapshotType nSnapshotType' : SnapshotType)
    (p b : CBlockIndex) (db db' : SnapshotDB) : SameData (r.beforeAdvance env nSnapshotType p b db)
      (r'.beforeAdvance env nSnapshotType' p b db') :=
  (sameState_takeSnapshot env nSnapshotType p db _).sameData.symm.trans
    ((h.crossFork env _).trans (sameState_takeSnapshot env nSnapshotType' p db' _).sameData)

theorem produceBlock_withMode (h : r.produceBlock env p b = .ok r') :
    (r.withMode 0 0).produceBlock env p b = .ok (r'.withMode 0 0) := by
  by_cases hfork : Fork.qpos ≤ getFork env.fTestNet b.nHeight
  · have hmode : r.fCurrentBlockWasProduced = true →
        (r.override ⟨some 0, some 0, none, none⟩).outOfReplayMode = r.outOfReplayMode := by
      intro hproduced
      have hout := (produceBlock_ok hfork h).2.1
      rw [hproduced, Bool.true_and] at hout
      rw [hout]
      rfl
    rw [withMode_eq_override, produceBlock_override env p b r _ hmode, h, if_pos hfork]
    rfl
  · rw [produceBlock, if_neg hfork] at h ⊢
    cases h
    rfl

theorem SameData.produceBlock (h : SameData r r')
    (hs : r.produceBlock env p b = .ok s) (hs' : r'.produceBlock env p b = .ok s') : SameData s s' := by
  have halike : Alike (r.withMode 0 0) (r'.withMode 0 0) := ⟨h, rfl⟩
  have hprod := alike_produceBlock env halike p b
  rw [produceBlock_withMode env hs, produceBlock_withMode env hs'] at hprod
  exact hprod.sameData

theorem SameData.finishBlock {now : Int} {fJustCheck : Bool}
    (h : SameData r r') (hs : r.finishBlock env now fJustCheck p b = (s, .accepted))
    (hs' : r'.finishBlock env now fJustCheck p b = (s', .accepted)) : SameData s s' := by
  obtain ⟨r₁, r₂, hops, hprod, rfl⟩ := finishBlock_accepted hs
  obtain ⟨r₁', r₂', hops', hprod', rfl⟩ := finishBlock_accepted hs'
  obtain ⟨x, o, o', rfl, rfl⟩ := h.exists_override
  rw [applyBlockOps_override] at hops hops'
  cases hx : x.applyBlockOps env now fJustCheck b with
  | error e => simp only [hx, reduceCtorEq] at hops
  | ok y =>
    rw [hx, Except.ok.injEq] at hops hops'
    subst hops hops'
    exact overridden_sameData.setBlock ((sameData_override y o o').produceBlock env hprod hprod') b

/-- Registries of one persistent state that accept a block have one persistent state after it. -/
theorem SameData.updateOnNewBlock {now : Int} {nSnapshotType nSnapshotType' : SnapshotType}
    {fJustCheck : Bool} {db db' : SnapshotDB} (h : SameData r r')
    (hs : (r.updateOnNewBlock env now nSnapshotType fJustCheck p b db).2 = (s, .accepted))
    (hs' : (r'.updateOnNewBlock env now nSnapshotType' fJustCheck p b db').2 = (s', .accepted)) :
    SameData s s' := by
  obtain ⟨-, hfin⟩ := updateOnNewBlock_accepted hs
  obtain ⟨-, hfin'⟩ := updateOnNewBlock_accepted hs'
  have hbefore := h.beforeAdvance env nSnapshotType nSnapshotType' p b db db'
  exact (hbefore.advanceTime env p b.nTime).1.finishBlock env hfin hfin'

end

end Stealth.QPRegistry

import Stealth.Qpos.Producer

/-! Registries read back from their serialization, which leaves three fields of the target as they are. -/

namespace Stealth.QPRegistry

open Loop

variable {r r' : QPRegistry}

def serialize (r : QPRegistry) : Serialized := r.toSerialized

/-- Read into a registry; every container is cleared before it is read. -/
def unserialize (target : QPRegistry) (d : Serialized) : QPRegistry := { target with toSerialized := d }

/-- The same serialization and the same replay mode. -/
structure Alike (r r' : QPRegistry) : Prop where
  data : r.serialize = r'.serialize
  mode : r.isInReplayMode = r'.isInReplayMode

/-- Overrides with the same last snapshot and the same replay mode. -/
structure Override.Twins (o o' : Override) : Prop where
  snapshot : o.hashBlockLastSnapshot = o'.hashBlockLastSnapshot
  mode : ∃ m m', o.nHeightExitedReplay = some m ∧ o'.nHeightExitedReplay = some m' ∧
    (m == 0) = (m' == 0)

theorem alike_override (x : QPRegistry) {o o' : Override} (h : o.Twins o') :
    Alike (x.override o) (x.override o') := by
  obtain ⟨m, m', hm, hm', hzero⟩ := h.mode
  constructor
  · simp only [serialize, override, h.snapshot]
  · simpa only [isInReplayMode, override, hm, hm', Option.getD_some] using hzero

theorem Alike.exists_override (h : Alike r r') :
    ∃ x o o', r = override x o ∧ r' = override x o' ∧ o.Twins o' := by
  refine ⟨r, ⟨some r.nHeightExitedReplay, none, some r.fShouldRollback, some r.mapCertifiedNodes⟩,
    ⟨some r'.nHeightExitedReplay, none, some r'.fShouldRollback, some r'.mapCertifiedNodes⟩, rfl, ?_,
    rfl, _, _, rfl, rfl, h.mode⟩
  calc r' = r'.unserialize r'.serialize := rfl
    _ = r'.unserialize r.serialize := by rw [h.data]

theorem Alike.outOfReplayMode (h : Alike r r') : r.outOfReplayMode = r'.outOfReplayMode := by
  have hmode := h.mode
  simp only [isInReplayMode] at hmode
  simp only [QPRegistry.outOfReplayMode, bne, hmode]

section
variable (env : QPEnv) (pindex : CBlockIndex) {r r' : QPRegistry} {R : QPRegistry → QPRegistry → Prop}

/-- Registries that differ in overridden fields only, whatever the registry below both is. -/
structure Overridden (R : QPRegistry → QPRegistry → Prop) : Prop where
  exists_override : ∀ {r r'}, R r r' →
    ∃ x o o', r = override x o ∧ r' = override x o' ∧ ∀ y, R (override y o) (override y o')
  exit : ∀ {r r'}, R r r' → R r.exitReplayModeInternal r'.exitReplayModeInternal
  checkPower : ∀ env {r r'}, R r r' → R (r.checkPower env) (r'.checkPower env)

theorem Overridden.passSlot (hR : Overridden R) (h : R r r') (n : Nat) :
    R (r.passSlot env pindex n) (r'.passSlot env pindex n) := by
  obtain ⟨x, o, o', rfl, rfl, ho⟩ := hR.exists_override h
  have hproduced : ∀ o, (x.override o).fCurrentBlockWasProduced = x.fCurrentBlockWasProduced :=
    fun _ => rfl
  have hqueue : ∀ o, (x.override o).queue = x.queue := fun _ => rfl
  simp only [QPRegistry.passSlot, hproduced, hqueue, stakerMissedBlock_override]
  split
  · exact h
  · split
    · exact ho _
    · exact hR.exit h

theorem nextSlot_override_eq (x : QPRegistry) (o : Override) (n : Nat) :
    (x.override o).nextSlot env pindex n =
      match x.nextSlot env pindex n with
      | .error e => .error (e.override o)
      | .ok y => .ok (y.1.override o, y.2) := by
  obtain ⟨e, e', hx, hy, h⟩ | ⟨y, y', hx, hy, h⟩ := (nextSlot_override env pindex n n x o).cases
  · rw [hx, hy, h]
  · rw [hx, hy]
    exact congrArg _ (Prod.ext h.1 (Nat.add_right_cancel h.2).symm)

/-- Registries and counts of new queues in one iteration of the advance loop. -/
def SlotsRel (R : QPRegistry → QPRegistry → Prop) (x y : QPRegistry × Nat) : Prop :=
  R x.1 y.1 ∧ x.2 = y.2

theorem Overridden.advanceSlot (hR : Overridden R) {x y : QPRegistry × Nat} (h : SlotsRel R x y) :
    ResultRel R (SlotsRel R) (advanceSlot env pindex x) (advanceSlot env pindex y) := by
  obtain ⟨z, o, o', hz, hz', ho⟩ := hR.exists_override (hR.passSlot env pindex h.1 x.2)
  rw [QPRegistry.advanceSlot, QPRegistry.advanceSlot, ← h.2, hz, hz', nextSlot_override_eq,
    nextSlot_override_eq]
  cases z.nextSlot env pindex x.2 with
  | error e => exact ho e
  | ok w => exact ⟨hR.checkPower env (ho (w.1.setProduced false)), rfl⟩

theorem Overridden.startQueue (hR : Overridden R) (h : R r r') :
    (r.startQueue env pindex = none ∧ r'.startQueue env pindex = none) ∨
      ∃ x y, r.startQueue env pindex = some x ∧ r'.startQueue env pindex = some y ∧ SlotsRel R x y := by
  obtain ⟨x, o, o', rfl, rfl, ho⟩ := hR.exists_override h
  have hempty : ∀ o, (x.override o).queue.isEmpty = x.queue.isEmpty := fun _ => rfl
  simp only [QPRegistry.startQueue, hempty, newQueue_override]
  split
  · cases x.newQueue env (pindex.nTime + 1) pindex.hashBlock with
    | none => exact .inl ⟨rfl, rfl⟩
    | some y => exact .inr ⟨_, _, rfl, rfl, ho y, rfl⟩
  · exact .inr ⟨_, _, rfl, rfl, h, rfl⟩

theorem Overridden.advanceTime (hR : Overridden R) (h : R r r') (nTime : UInt32) :
    R (r.advanceTime env nTime pindex).1 (r'.advanceTime env nTime pindex).1 ∧
      (r.advanceTime env nTime pindex).2 = (r'.advanceTime env nTime pindex).2 := by
  rw [QPRegistry.advanceTime, QPRegistry.advanceTime]
  split
  · obtain ⟨hx, hy⟩ | ⟨x, y, hx, hy, hxy⟩ := hR.startQueue env pindex h
    · rw [hx, hy]
      exact ⟨h, rfl⟩
    · have hslot : ∀ s t, SlotsRel R s t → slotHasPassed nTime s = slotHasPassed nTime t := by
        rintro ⟨s, n⟩ ⟨t, m⟩ ⟨hst, -⟩
        obtain ⟨x, o, o', rfl, rfl, -⟩ := hR.exists_override hst
        rfl
      have hloop : ResultRel R (SlotsRel R) (advanceLoop env nTime pindex x)
          (advanceLoop env nTime pindex y) :=
        whileLoop_sim hslot (fun _ _ hst _ => hR.advanceSlot env pindex hst) advanceFuel x y hxy
      rw [hx, hy]
      dsimp only
      obtain ⟨e, e', ha, hb, he⟩ | ⟨s, t, ha, hb, hst⟩ := hloop.cases
      · rw [ha, hb]
        exact ⟨he, rfl⟩
      · rw [ha, hb]
        exact ⟨hst.1, rfl⟩
  · exact ⟨h, rfl⟩

theorem Overridden.crossFork (hR : Overridden R) (h : R r r') (nFork : Fork) :
    R (r.crossFork env nFork) (r'.crossFork env nFork) := by
  obtain ⟨x, o, o', rfl, rfl, ho⟩ := hR.exists_override h
  rw [crossFork_override, crossFork_override]
  exact ho _

theorem Overridden.setBlock (hR : Overridden R) (h : R r r') (b : CBlockIndex) :
    R (r.setBlock b) (r'.setBlock b) := by
  obtain ⟨x, o, o', rfl, rfl, ho⟩ := hR.exists_override h
  exact ho (x.setBlock b)

theorem Alike.exitReplayModeInternal (h : Alike r r') :
    Alike r.exitReplayModeInternal r'.exitReplayModeInternal := by
  obtain ⟨x, o, o', rfl, rfl, ho⟩ := h.exists_override
  exact ⟨(alike_override x ho).data, rfl⟩

theorem overridden_alike : Overridden Alike where
  exists_override h := by
    obtain ⟨x, o, o', hr, hr', ho⟩ := h.exists_override
    exact ⟨x, o, o', hr, hr', fun y => alike_override y ho⟩
  exit h := h.exitReplayModeInternal
  checkPower env r r' h := by
    have hpower : r.hasEnoughPower env = r'.hasEnoughPower env := by
      obtain ⟨x, o, o', rfl, rfl, -⟩ := h.exists_override
      rfl
    rw [QPRegistry.checkPower, QPRegistry.checkPower, hpower, h.outOfReplayMode]
    split
    · exact ⟨h.data, h.mode⟩
    · split
      · exact Alike.exitReplayModeInternal ⟨h.data, h.mode⟩
      · exact ⟨h.data, h.mode⟩

theorem Alike.takeSnapshot (h : Alike r r') (nSnapshotType : SnapshotType) (db : SnapshotDB) :
    Alike (r.takeSnapshot env nSnapshotType pindex db).2
      (r'.takeSnapshot env nSnapshotType pindex db).2 := by
  have hlast : r.hashBlockLastSnapshot = r'.hashBlockLastSnapshot :=
    congrArg Serialized.hashBlockLastSnapshot h.data
  have hset : Alike { r with hashBlockLastSnapshot := pindex.hashBlock }
      { r' with hashBlockLastSnapshot := pindex.hashBlock } :=
    ⟨congrArg (fun d => { d with hashBlockLastSnapshot := pindex.hashBlock }) h.data, h.mode⟩
  simp only [QPRegistry.takeSnapshot, hlast]
  split
  · split <;> exact hset
  · split <;> exact h

theorem Override.Twins.forgetNodes {o o' : Override} (h : o.Twins o') (c : Prop) [Decidable c] :
    (if c then { o with mapCertifiedNodes := none } else o : Override).Twins
      (if c then { o' with mapCertifiedNodes := none } else o') := by
  split
  · exact ⟨h.snapshot, h.mode⟩
  · exact h

theorem alike_produceBlock (h : Alike r r') (p b : CBlockIndex) :
    ResultRel Alike Alike (r.produceBlock env p b) (r'.produceBlock env p b) := by
  have hout := h.outOfReplayMode
  obtain ⟨x, o, o', rfl, rfl, ho⟩ := h.exists_override
  obtain ⟨m, m', hm, hm', -⟩ := ho.mode
  -- the first registry's mode is moved to the registry below both
  have hbase : ∀ o'' m'', o''.nHeightExitedReplay = some m'' →
      x.override o'' = (x.override ⟨some m, none, none, none⟩).override o'' := by
    rintro ⟨-, s, f, c⟩ m'' rfl
    rfl
  have hmode : (x.override ⟨some m, none, none, none⟩).outOfReplayMode =
      (x.override o).outOfReplayMode := by
    simp only [QPRegistry.outOfReplayMode, override, hm, Option.getD_some]
  rw [hbase o m hm, hbase o' m' hm'] at hout ⊢
  rw [hbase o m hm] at hmode
  rw [produceBlock_override env p b _ o fun _ => hmode.symm,
    produceBlock_override env p b _ o' fun _ => hout.symm.trans hmode.symm]
  cases (x.override ⟨some m, none, none, none⟩).produceBlock env p b with
  | error e => exact alike_override e ho
  | ok y => exact alike_override y (ho.forgetNodes _)

theorem Alike.finishBlock (h : Alike r r') (now : Int) (fJustCheck : Bool) (p b : CBlockIndex) :
    Alike (r.finishBlock env now fJustCheck p b).1 (r'.finishBlock env now fJustCheck p b).1 ∧
      (r.finishBlock env now fJustCheck p b).2 = (r'.finishBlock env now fJustCheck p b).2 := by
  obtain ⟨x, o, o', rfl, rfl, ho⟩ := h.exists_override
  rw [QPRegistry.finishBlock, QPRegistry.finishBlock, applyBlockOps_override, applyBlockOps_override]
  cases x.applyBlockOps env now fJustCheck b with
  | error e => exact ⟨alike_override e.1 ho, rfl⟩
  | ok y =>
    dsimp only
    obtain ⟨e, e', ha, hb, he⟩ | ⟨z, z', ha, hb, hz⟩ :=
      (alike_produceBlock env (alike_override y ho) p b).cases
    · rw [ha, hb]
      exact ⟨he, rfl⟩
    · rw [ha, hb]
      exact ⟨overridden_alike.setBlock hz b, rfl⟩

theorem Alike.updateOnNewBlock (h : Alike r r') (now : Int) (nSnapshotType : SnapshotType)
    (fJustCheck : Bool) (p b : CBlockIndex) (db : SnapshotDB) :
    Alike (r.updateOnNewBlock env now nSnapshotType fJustCheck p b db).2.1
        (r'.updateOnNewBlock env now nSnapshotType fJustCheck p b db).2.1 ∧
      (r.updateOnNewBlock env now nSnapshotType fJustCheck p b db).2.2 =
        (r'.updateOnNewBlock env now nSnapshotType fJustCheck p b db).2.2 := by
  have hbefore : Alike (r.beforeAdvance env nSnapshotType p b db)
      (r'.beforeAdvance env nSnapshotType p b db) := (overridden_alike.crossFork env h _).takeSnapshot env p nSnapshotType db
  obtain ⟨hadv, hok⟩ := overridden_alike.advanceTime env p hbefore b.nTime
  rw [updateOnNewBlock_snd, updateOnNewBlock_snd]
  rcases ha : (r.beforeAdvance env nSnapshotType p b db).advanceTime env b.nTime p with ⟨r₁, f⟩
  rcases hb : (r'.beforeAdvance env nSnapshotType p b db).advanceTime env b.nTime p with ⟨r₂, f'⟩
  rw [ha, hb] at hadv hok
  cases hok
  cases f with
  | false => exact ⟨hadv, rfl⟩
  | true => exact hadv.finishBlock env now fJustCheck p b

end

/-- What the registry is told: a new time or a new block. -/
inductive Event where
  | time (nTime : UInt32) (pindex : CBlockIndex) (nSnapshotType : SnapshotType) (db : SnapshotDB)
  | block (now : Int) (nSnapshotType : SnapshotType) (fJustCheck : Bool)
      (pindexPrev pindex : CBlockIndex) (db : SnapshotDB)

/-- The registry that an event leaves, accepted or not, and the verdict. -/
def respond (env : QPEnv) (r : QPRegistry) : Event → QPRegistry × Verdict
  | .time nTime pindex nSnapshotType db =>
    match (r.updateOnNewTimeInternal env nTime pindex nSnapshotType db).2 with
    | (r', true) => (r', .accepted)
    | (r', false) => (r', .rejected)
  | .block now nSnapshotType fJustCheck pindexPrev pindex db =>
    (r.updateOnNewBlock env now nSnapshotType fJustCheck pindexPrev pindex db).2

def respondAll (env : QPEnv) : QPRegistry → List Event → QPRegistry × List Verdict
  | r, [] => (r, [])
  | r, e :: es =>
    let (rEnd, verdicts) := respondAll env (r.respond env e).1 es
    (rEnd, (r.respond env e).2 :: verdicts)

theorem Alike.respond (env : QPEnv) (h : Alike r r') (e : Event) :
    Alike (r.respond env e).1 (r'.respond env e).1 ∧ (r.respond env e).2 = (r'.respond env e).2 := by
  cases e with
  | time nTime pindex nSnapshotType db =>
    obtain ⟨hadv, hok⟩ := overridden_alike.advanceTime env pindex
      (h.takeSnapshot env pindex nSnapshotType db) nTime
    simp only [QPRegistry.respond, updateOnNewTimeInternal]
    rcases ha : (r.takeSnapshot env nSnapshotType pindex db).2.advanceTime env nTime pindex
      with ⟨r₁, f⟩
    rcases hb : (r'.takeSnapshot env nSnapshotType pindex db).2.advanceTime env nTime pindex
      with ⟨r₂, f'⟩
    rw [ha, hb] at hadv hok
    cases hok
    cases f <;> exact ⟨hadv, rfl⟩
  | block now nSnapshotType fJustCheck p b db =>
    exact h.updateOnNewBlock env now nSnapshotType fJustCheck p b db

theorem Alike.respondAll (env : QPEnv) : ∀ (es : List Event) {r r' : QPRegistry}, Alike r r' →
    Alike (respondAll env r es).1 (respondAll env r' es).1 ∧
      (respondAll env r es).2 = (respondAll env r' es).2
  | [], _, _, h => ⟨h, rfl⟩
  | e :: es, r, r', h => by
    obtain ⟨hnext, hverdict⟩ := h.respond env e
    obtain ⟨hrest, hverdicts⟩ := hnext.respondAll env es
    exact ⟨hrest, congrArg₂ List.cons hverdict hverdicts⟩

/-- The same answers to slot owner, weight, balance, alias and claim queries. -/
structure SameAnswers (env : QPEnv) (r r' : QPRegistry) : Prop where
  slotOwner : r.getIDForCurrentSlot = r'.getIDForCurrentSlot
  nextOwner : ∀ nTime pindex,
    r.getIDForCurrentTime env nTime pindex = r'.getIDForCurrentTime env nTime pindex
  weight : ∀ nID, r.getStakerWeight nID = r'.getStakerWeight nID
  balance : ∀ key, r.getBalanceForPubKey key = r'.getBalanceForPubKey key
  idForAlias : ∀ sAlias, r.getIDForAlias sAlias = r'.getIDForAlias sAlias
  aliasForID : ∀ nID, r.getAliasForID nID = r'.getAliasForID nID
  claim : ∀ now key nValue nClaimTime, r.canClaimInternal env now key nValue nClaimTime =
    r'.canClaimInternal env now key nValue nClaimTime

theorem Alike.getIDForCurrentSlot (h : Alike r r') : r.getIDForCurrentSlot = r'.getIDForCurrentSlot := by
  have hqueue : r.queue = r'.queue := congrArg Serialized.queue h.data
  rw [QPRegistry.getIDForCurrentSlot, QPRegistry.getIDForCurrentSlot, hqueue]

theorem Alike.getIDForCurrentTime (env : QPEnv) (h : Alike r r') (nTime : UInt32) (pindex : CBlockIndex) :
    r.getIDForCurrentTime env nTime pindex = r'.getIDForCurrentTime env nTime pindex := by
  have hqueue : r.queue = r'.queue := congrArg Serialized.queue h.data
  have hproduced : r.fCurrentBlockWasProduced = r'.fCurrentBlockWasProduced :=
    congrArg Serialized.fCurrentBlockWasProduced h.data
  have hadv := (overridden_alike.advanceTime env pindex h nTime).1.getIDForCurrentSlot
  rw [QPRegistry.getIDForCurrentTime, QPRegistry.getIDForCurrentTime, hqueue, hproduced,
    updateOnNewTime, updateOnNewTime, hadv]

theorem Alike.sameAnswers (h : Alike r r') (env : QPEnv) : SameAnswers env r r' := by
  have hslot := h.getIDForCurrentSlot
  have hnext := fun nTime pindex => h.getIDForCurrentTime env nTime pindex
  obtain ⟨x, o, o', rfl, rfl, -⟩ := h.exists_override
  exact
    { slotOwner := hslot
      nextOwner := hnext
      weight := fun _ => rfl
      balance := fun _ => rfl
      idForAlias := fun _ => rfl
      aliasForID := fun _ => rfl
      claim := fun _ _ _ _ => rfl }

/-- A registry that is read back into one of the same replay mode behaves as the one that was
written. -/
theorem unserialize_behaves {env : QPEnv} {r target : QPRegistry}
    (hmode : target.isInReplayMode = r.isInReplayMode) (es : List Event) :
    (respondAll env (target.unserialize r.serialize) es).2 = (respondAll env r es).2 ∧
      (respondAll env (target.unserialize r.serialize) es).1.serialize =
        (respondAll env r es).1.serialize ∧
      SameAnswers env (respondAll env (target.unserialize r.serialize) es).1
        (respondAll env r es).1 := by
  have halike : Alike (target.unserialize r.serialize) r := ⟨rfl, hmode⟩
  obtain ⟨hend, hverdicts⟩ := halike.respondAll env es
  exact ⟨hverdicts, hend.data, hend.sameAnswers env⟩

theorem unserialize_behaves_solo : ∃ r, replay mainEnv blockClock (soloChain 3695100) = some r ∧
      (respondAll mainEnv ((empty mainEnv).unserialize r.serialize)
        [.block 0 .noSnaps false (soloBlock 3695100) (soloBlock 3695101) ∅]).1.serialize =
      (respondAll mainEnv r
        [.block 0 .noSnaps false (soloBlock 3695100) (soloBlock 3695101) ∅]).1.serialize := by
  obtain ⟨r, hr, hempty⟩ : ∃ r, replay mainEnv blockClock (soloChain 3695100) = some r ∧
      (empty mainEnv).isInReplayMode = r.isInReplayMode := exists_replay_soloQpos (by decide +kernel)
  exact ⟨r, hr, (unserialize_behaves hempty _).2.1⟩

end Stealth.QPRegistry

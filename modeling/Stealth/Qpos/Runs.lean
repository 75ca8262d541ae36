import Stealth.Qpos.Bookkeeping

/-! Runs of the registry: time updates, accepted blocks and changes of the replay mode in any order. -/

namespace Stealth.QPRegistry

variable {env : QPEnv} {now : Int} {fJustCheck : Bool} {b p : CBlockIndex} {r r' : QPRegistry}

theorem applyBlockOps_ok (h : r.applyBlockOps env now fJustCheck b = .ok r') :
    if Fork.purchase ≤ getFork env.fTestNet b.nHeight then r.applyOps env now b b.vDeets = .ok r'
    else r' = r := by
  rw [applyBlockOps] at h
  split at h
  · next hfork =>
    rw [if_pos hfork]
    split at h
    · cases h
    · next hops =>
      cases h
      exact hops
  · next hfork =>
    cases h
    rw [if_neg hfork]

/-- The producer of a block holds the current slot, which has no block unless a replay runs. -/
theorem produceBlock_ok
    (hfork : Fork.qpos ≤ getFork env.fTestNet b.nHeight) (h : r.produceBlock env p b = .ok r') :
    r.queue.getSlotForID b.nStakerID = some r.queue.nCurrentSlot ∧
      (r.fCurrentBlockWasProduced && r.outOfReplayMode) = false ∧
      ∃ r₁, r.stakerProducedBlock env b (getQPoSReward p) = some r₁ ∧
        r' = (r₁.setQueue
          (r₁.queue.slotProduced r.queue.nCurrentSlot).1).sawBlockAll.updateCertifiedNodesList := by
  have hp := produces env p b r
  rw [h] at hp
  cases hp with
  | before hnot => exact absurd hfork hnot
  | counted _ _ hslot hfree hr₁ hres =>
    rcases hres with hres | hres
    · cases hres
    · cases hres
      exact ⟨hslot, hfree, _, hr₁, rfl⟩

theorem finishBlock_accepted (h : r.finishBlock env now fJustCheck p b = (r', .accepted)) :
    ∃ r₁ r₂, r.applyBlockOps env now fJustCheck b = .ok r₁ ∧ r₁.produceBlock env p b = .ok r₂ ∧
      r' = r₂.setBlock b := by
  rw [finishBlock] at h
  split at h
  · next e hops =>
    -- a block whose operations fail is never accepted
    subst h
    rw [applyBlockOps] at hops
    split at hops
    · split at hops
      · cases fJustCheck <;> cases hops
      · cases hops
    · cases hops
  · next r₁ hops =>
    split at h
    · cases h
    · next r₂ hprod =>
      cases h
      exact ⟨r₁, r₂, hops, hprod, rfl⟩

def produceLog (env : QPEnv) (p b : CBlockIndex) (r : QPRegistry) : List (AccountOp CPubKey) :=
  if Fork.qpos ≤ getFork env.fTestNet b.nHeight then
    match r.getStakerInternal b.nStakerID with
    | none => []
    | some s =>
      let shares := s.rewardShares (getQPoSReward p)
      [.reward b.nStakerID shares.1 shares.2]
  else []

theorem accounts_disqualifyStakerIfNecessary (env : QPEnv) (r : QPRegistry) (nID : Nat) (s : QPStaker) :
    (r.disqualifyStakerIfNecessary env nID s).accounts = r.accounts := by
  rw [disqualifyStakerIfNecessary]
  split
  · rfl
  · split
    · split
      · rfl
      · next s' hs' =>
        split
        · rfl
        · exact accounts_putStaker_same (getStakerInternal_eq_some.1 hs').2 rfl
    · rfl

theorem accounts_stakerProducedBlock (hmain : env.fTestNet = false)
    {nReward : Int} (h : r.stakerProducedBlock env b nReward = some r') :
    ∃ s, r.getStakerInternal b.nStakerID = some s ∧
      r'.accounts =
        r.accounts.apply (.reward b.nStakerID (s.rewardShares nReward).1 (s.rewardShares nReward).2) := by
  rw [stakerProducedBlock] at h
  dsimp only at h
  split at h
  · cases h
  · next s hs =>
    refine ⟨s, hs, ?_⟩
    have hmap := (getStakerInternal_eq_some.1 hs).2
    split at h
    · cases h
    · simp only [hmain, Bool.false_eq_true, false_and, if_false, Option.some.injEq] at h
      subst h
      have hput : ((r.pushPower b.nStakerID s true).putStaker b.nStakerID
          (s.producedBlock b.hashBlock nReward r.fPrevBlockWasProduced)).accounts = r.accounts :=
        accounts_putStaker_same (r := r.pushPower b.nStakerID s true) hmap rfl
      have hdisq : ∀ (c : Prop) [Decidable c] (q : QPRegistry) (t : QPStaker),
          (if c then q.disqualifyStakerIfNecessary env b.nStakerID t else q).accounts =
            q.accounts := by
        intro c _ q t
        split
        · exact accounts_disqualifyStakerIfNecessary env q _ t
        · rfl
      have hrecord : ∀ q : QPRegistry, ((q.recordSlot true).setProduced true).accounts = q.accounts :=
        fun _ => rfl
      rw [hrecord, hdisq, Accounts.apply, roles_getElem? hmap, QPStaker.roleKeys, ← hput]
      dsimp only
      split <;> rfl

theorem books_produceBlock (hmain : env.fTestNet = false) (h : r.produceBlock env p b = .ok r') :
    Books r r' (produceLog env p b r) := by
  rw [produceLog]
  split
  · next hfork =>
    obtain ⟨-, -, r₁, hprod, rfl⟩ := produceBlock_ok hfork h
    obtain ⟨s, hs, hacc⟩ := accounts_stakerProducedBlock hmain hprod
    rw [hs]
    refine Books.single (mem_roles (getStakerInternal_eq_some.1 hs).2) ?_
    rw [← hacc]
    exact (sameIdentity_sawBlockAll r₁ _).accounts
  · next hfork =>
    rw [produceBlock, if_neg hfork] at h
    cases h
    exact .nil rfl

/-- What happens to a registry. -/
inductive Update where
  | time (nTime : UInt32) (pindex : CBlockIndex)
  | block (now : Int) (nSnapshotType : SnapshotType) (fJustCheck : Bool)
      (pindexPrev pindex : CBlockIndex) (db : SnapshotDB)
  | exitReplay
  | enterReplay
  | sync (now : Int)

/-- The registry after an update; `none` for a block that is not accepted. -/
def update (env : QPEnv) (r : QPRegistry) : Update → Option QPRegistry
  | .time nTime pindex => some (r.updateOnNewTime env nTime pindex).1
  | .block now nSnapshotType fJustCheck pindexPrev pindex db =>
    match (r.updateOnNewBlock env now nSnapshotType fJustCheck pindexPrev pindex db).2 with
    | (r', .accepted) => some r'
    | _ => none
  | .exitReplay => some r.exitReplayModeInternal
  | .enterReplay => some r.enterReplayMode
  | .sync now => some (r.checkSynced env now)

def finishLog (env : QPEnv) (now : Int) (fJustCheck : Bool) (p b : CBlockIndex) (r : QPRegistry) :
    List (AccountOp CPubKey) :=
  (if Fork.purchase ≤ getFork env.fTestNet b.nHeight then opsLog env now b r b.vDeets else []) ++
    match r.applyBlockOps env now fJustCheck b with
    | .error _ => []
    | .ok r' => produceLog env p b r'

def updateLog (env : QPEnv) (r : QPRegistry) : Update → List (AccountOp CPubKey)
  | .time nTime pindex => advanceLog env nTime pindex r
  | .block now nSnapshotType fJustCheck pindexPrev pindex db =>
    let r := r.beforeAdvance env nSnapshotType pindexPrev pindex db
    advanceLog env pindex.nTime pindexPrev r ++
      finishLog env now fJustCheck pindexPrev pindex (r.advanceTime env pindex.nTime pindexPrev).1
  | .exitReplay | .enterReplay | .sync _ => []

def runUpdates (env : QPEnv) : QPRegistry → List Update → Option QPRegistry
  | r, [] => some r
  | r, u :: us => (r.update env u).bind fun r' => runUpdates env r' us

def runLog (env : QPEnv) : QPRegistry → List Update → List (AccountOp CPubKey)
  | _, [] => []
  | r, u :: us =>
    r.updateLog env u ++
      match r.update env u with
      | none => []
      | some r' => runLog env r' us

theorem updateOnNewBlock_accepted {nSnapshotType : SnapshotType} {db : SnapshotDB}
    (h : (r.updateOnNewBlock env now nSnapshotType fJustCheck p b db).2 = (r', .accepted)) :
    ((r.beforeAdvance env nSnapshotType p b db).advanceTime env b.nTime p).2 = true ∧
      ((r.beforeAdvance env nSnapshotType p b db).advanceTime env b.nTime p).1.finishBlock env now
        fJustCheck p b = (r', .accepted) := by
  rw [updateOnNewBlock_snd] at h
  split at h
  · cases h
  · next hadv => exact ⟨by rw [hadv], by rw [hadv]; exact h⟩

theorem Reachable.update {u : Update} (hr : Reachable env r)
    (h : r.update env u = some r') : Reachable env r' := by
  cases u with
  | time nTime pindex =>
    cases h
    exact hr.time nTime pindex
  | block now nSnapshotType fJustCheck pindexPrev pindex db =>
    have hblock := hr.block now nSnapshotType fJustCheck pindexPrev pindex db
    rw [QPRegistry.update] at h
    split at h
    · next heq =>
      cases h
      rwa [heq] at hblock
    · cases h
  | exitReplay =>
    cases h
    exact hr.exitReplay
  | enterReplay =>
    cases h
    exact hr.enterReplay
  | sync now =>
    cases h
    exact hr.sync now

theorem Reachable.runUpdates : ∀ {us : List Update} {r r' : QPRegistry},
    Reachable env r → runUpdates env r us = some r' → Reachable env r'
  | [], r, r', hr, h => by
    cases h
    exact hr
  | u :: us, r, r', hr, h => by
    obtain ⟨r₁, hu, hus⟩ := Option.bind_eq_some_iff.1 h
    exact Reachable.runUpdates (hr.update hu) hus

theorem books_mode (h : SameState r r') : Books r r' [] := .nil h.identity.accounts

theorem books_advanceTime (env : QPEnv) (nTime : UInt32) (p : CBlockIndex) (r : QPRegistry) :
    Books r (r.advanceTime env nTime p).1 (advanceLog env nTime p r) :=
  ⟨allAllowed_advanceLog env nTime p r _, accounts_advanceTime env nTime p r⟩

theorem books_finishBlock (hmain : env.fTestNet = false) (hids : IdsInOrder r)
    (h : r.finishBlock env now fJustCheck p b = (r', .accepted)) :
    Books r r' (finishLog env now fJustCheck p b r) := by
  obtain ⟨r₁, r₂, hops, hprod, rfl⟩ := finishBlock_accepted h
  have hreward := books_produceBlock hmain hprod
  rw [finishLog, hops]
  suffices hbooks : Books r r₁ _ from hbooks.append ⟨hreward.1, hreward.2⟩
  have happly := applyBlockOps_ok hops
  split at happly
  · next hfork =>
    rw [if_pos hfork]
    exact books_applyOps hmain hids happly
  · next hfork =>
    rw [if_neg hfork, happly]
    exact .nil rfl

theorem QueueInv.beforeAdvance (hi : QueueInv env r)
    (nSnapshotType : SnapshotType) (p b : CBlockIndex) (db : SnapshotDB) :
    QueueInv env (r.beforeAdvance env nSnapshotType p b db) :=
  (sameState_takeSnapshot env nSnapshotType p db _).queueInv (hi.crossFork _)

theorem books_update (hmain : env.fTestNet = false) {u : Update}
    (hr : Reachable env r) (h : r.update env u = some r') : Books r r' (r.updateLog env u) := by
  cases u with
  | time nTime pindex =>
    cases h
    exact books_advanceTime env nTime pindex r
  | block now nSnapshotType fJustCheck p b db =>
    rw [update] at h
    split at h
    · next heq =>
      cases h
      have hi := (hr.queueInv.beforeAdvance nSnapshotType p b db).advanceTime b.nTime p
      have hadv := books_advanceTime env b.nTime p (r.beforeAdvance env nSnapshotType p b db)
      have hstart : Books r (r.beforeAdvance env nSnapshotType p b db) [] :=
        .nil (sameIdentity_beforeAdvance env nSnapshotType p b db r).accounts
      exact hstart.append (hadv.append
        (books_finishBlock hmain hi.ids (updateOnNewBlock_accepted heq).2))
    · cases h
  | exitReplay =>
    cases h
    exact books_mode rfl
  | enterReplay =>
    cases h
    rw [enterReplayMode]
    split <;> exact books_mode rfl
  | sync now =>
    cases h
    rw [checkSynced]
    split <;> exact books_mode rfl

theorem books_runUpdates (hmain : env.fTestNet = false) :
    ∀ {us : List Update} {r r' : QPRegistry}, Reachable env r → runUpdates env r us = some r' →
      Books r r' (runLog env r us)
  | [], r, r', _, h => by
    cases h
    exact .nil rfl
  | u :: us, r, r', hr, h => by
    obtain ⟨r₁, hu, hus⟩ := Option.bind_eq_some_iff.1 h
    rw [runLog, hu]
    exact (books_update hmain hr hu).append (books_runUpdates hmain (hr.update hu) hus)

theorem runUpdates_append : ∀ {us vs : List Update} {r : QPRegistry},
    runUpdates env r (us ++ vs) = (runUpdates env r us).bind fun r' => runUpdates env r' vs
  | [], _, _ => rfl
  | u :: us, vs, r => by
    rw [List.cons_append, runUpdates, runUpdates]
    cases r.update env u with
    | none => rfl
    | some r' => exact runUpdates_append

end Stealth.QPRegistry

import Stealth.Qpos.Enrolled

/-! Renewal of the queue, which fails only if no staker is enabled. -/

namespace Stealth.QPRegistry

open Loop

variable {r r' : QPRegistry} {env : QPEnv} {p b : CBlockIndex}

def afterNewQueue (env : QPEnv) (r : QPRegistry) (nTime0 : UInt32) (prevHash : Uint256) :
    QPRegistry × Bool :=
  match r.newQueue env nTime0 prevHash with
  | none => (r, false)
  | some r' => (r', true)

/-- A new queue lists every enabled staker once and nobody else, starts at its first slot and keeps the
queue and the power round that it replaces. A failure changes nothing of them. -/
theorem afterNewQueue_spec (env : QPEnv) (r : QPRegistry) (nTime0 : UInt32) (prevHash : Uint256) :
    let after := r.afterNewQueue env nTime0 prevHash
    (after.2 = true →
      (∀ nID, after.1.queue.vStakerIDs.count nID =
        if r.mapStakers[nID]?.any QPStaker.isEnabled then 1 else 0) ∧
      after.1.queue.nCurrentSlot = 0 ∧ after.1.queuePrev = r.queue ∧
      after.1.powerRoundPrev = r.powerRoundCurrent) ∧
    (after.2 = false →
      after.1.queue = r.queue ∧ after.1.queuePrev = r.queuePrev ∧ after.1.nRound = r.nRound ∧
      after.1.powerRoundPrev = r.powerRoundPrev ∧ after.1.powerRoundCurrent = r.powerRoundCurrent) := by
  dsimp only
  rw [afterNewQueue]
  cases h : r.newQueue env nTime0 prevHash with
  | none => exact ⟨fun hok => (nomatch hok), fun _ => ⟨rfl, rfl, rfl, rfl, rfl⟩⟩
  | some r' =>
    refine ⟨fun _ => ?_, fun hfail => (nomatch hfail)⟩
    obtain ⟨hslot, -, hperm, -⟩ := newQueue_spec h
    refine ⟨fun nID => ?_, hslot, ?_⟩
    · have hmem : nID ∈ r.enabledIDs ↔ r.mapStakers[nID]?.any QPStaker.isEnabled = true := by
        rw [mem_enabledIDs, Option.any_eq_true]
      rw [hperm.count_eq, List.Nodup.count (nodup_enabledIDs r)]
      exact if_congr hmem rfl rfl
    · rw [newQueue] at h
      split at h
      · cases h
      · cases h
        exact ⟨rfl, rfl⟩

def KeepsEnabled (r r' : QPRegistry) : Prop := ∀ nID ∈ r.enabledIDs, nID ∈ r'.enabledIDs

theorem KeepsEnabled.refl (r : QPRegistry) : KeepsEnabled r r := fun _ h => h

theorem KeepsEnabled.trans {r'' : QPRegistry} (h : KeepsEnabled r r') (h' : KeepsEnabled r' r'') :
    KeepsEnabled r r'' := fun nID hn => h' nID (h nID hn)

theorem KeepsEnabled.length_le (h : KeepsEnabled r r') : r.enabledIDs.length ≤ r'.enabledIDs.length :=
  (List.subperm_of_subset (nodup_enabledIDs r) h).length_le

theorem keepsEnabled_of_eq (h : r'.mapStakers = r.mapStakers) : KeepsEnabled r r' := by
  intro nID hn
  rwa [enabledIDs_congr h]

theorem keepsEnabled_insert {nID : Nat} {s' : QPStaker} (hput : r'.mapStakers = r.mapStakers.insert nID s')
    (hs : ∀ s, r.mapStakers[nID]? = some s → s.isEnabled = true → s'.isEnabled = true) :
    KeepsEnabled r r' := by
  intro id hid
  obtain ⟨s, hget, hen⟩ := mem_enabledIDs.1 hid
  rw [mem_enabledIDs, hput]
  by_cases hsame : nID = id
  · subst hsame
    exact ⟨s', by simp, hs s hget hen⟩
  · refine ⟨s, ?_, hen⟩
    simp [getElem?_insert, hsame, hget]

theorem keepsEnabled_map {f : Nat → QPStaker → QPStaker} (hmap : r'.mapStakers = r.mapStakers.map f)
    (hf : ∀ nID s, s.isEnabled = true → (f nID s).isEnabled = true) : KeepsEnabled r r' := by
  intro nID hn
  obtain ⟨s, hget, hen⟩ := mem_enabledIDs.1 hn
  refine mem_enabledIDs.2 ⟨f nID s, ?_, hf nID s hen⟩
  rw [hmap, getElem?_map, hget]
  rfl

theorem length_le_of_insert {nID : Nat} {s' : QPStaker} (hput : r'.mapStakers = r.mapStakers.insert nID s') :
    (r.enabledIDs.erase nID).length ≤ r'.enabledIDs.length := by
  refine (List.subperm_of_subset ((nodup_enabledIDs r).erase nID) fun id hid => ?_).length_le
  obtain ⟨hne, hmem⟩ := (nodup_enabledIDs r).mem_erase_iff.1 hid
  obtain ⟨t, ht, hte⟩ := mem_enabledIDs.1 hmem
  refine mem_enabledIDs.2 ⟨t, ?_, hte⟩
  rw [hput]
  simp [getElem?_insert, Ne.symm hne, ht]

/-- A miss takes a staker out of the enabled ones only while there are more than three. -/
theorem min_three_stakerMissedBlock (env : QPEnv) (r : QPRegistry) (nID : Nat) (nHeight : Int) :
    min 3 r.enabledIDs.length ≤ (r.stakerMissedBlock env nID nHeight).enabledIDs.length := by
  rcases stakerMissedBlock_cases env r nID nHeight with ⟨-, heq⟩ | ⟨s, s', hs, -, heq, hm, -⟩
  · rw [heq]
    exact Nat.min_le_right _ _
  · have hmap := (getStakerInternal_eq_some.1 hs).2
    have hput : (r.stakerMissedBlock env nID nHeight).mapStakers = r.mapStakers.insert nID s' := by
      rw [heq]
      rfl
    cases hen : s'.isEnabled with
    | true =>
      refine Nat.le_trans (Nat.min_le_right _ _) (KeepsEnabled.length_le ?_)
      exact keepsEnabled_insert hput fun _ _ _ => hen
    | false =>
      have hle := length_le_of_insert hput
      by_cases hmem : nID ∈ r.enabledIDs
      · obtain ⟨t, ht, hte⟩ := mem_enabledIDs.1 hmem
        rw [hmap] at ht
        cases ht
        have hmore := hm.disabled hte hen
        rw [List.length_erase_of_mem hmem] at hle
        omega
      · rw [List.erase_of_not_mem hmem] at hle
        omega

theorem min_three_passSlot (env : QPEnv) (p : CBlockIndex) (n : Nat) (r : QPRegistry) :
    min 3 r.enabledIDs.length ≤ (r.passSlot env p n).enabledIDs.length := by
  rw [passSlot]
  split
  · exact Nat.min_le_right _ _
  · split
    · exact min_three_stakerMissedBlock env r _ _
    · exact Nat.min_le_right _ _

theorem min_three_disableStakerIfNecessary (env : QPEnv) (r : QPRegistry) (nID : Nat) (s : QPStaker)
    (nHeight : Int) :
    min 3 r.enabledIDs.length ≤ (r.disableStakerIfNecessary env nID s nHeight).enabledIDs.length := by
  rw [disableStakerIfNecessary]
  split
  · exact Nat.min_le_right _ _
  · split
    · next hcond =>
      rw [Bool.and_eq_true, decide_eq_true_eq, getNumberEnabled_eq] at hcond
      rw [disableStaker]
      split
      · exact Nat.min_le_right _ _
      · split
        · exact Nat.min_le_right _ _
        · next t _ _ =>
          have hput : (r.putStaker nID (t.disable nHeight)).mapStakers =
              r.mapStakers.insert nID (t.disable nHeight) := rfl
          have hle := length_le_of_insert hput
          rw [List.length_erase] at hle
          split at hle <;> omega
    · exact Nat.min_le_right _ _

/-- Three stakers are enabled, and disqualification is no longer in force. -/
structure Staffed (env : QPEnv) (r : QPRegistry) : Prop where
  enabled : 3 ≤ r.enabledIDs.length
  fork : Fork.reinstate ≤ getFork env.fTestNet r.nBlockHeight

theorem Staffed.keeps (h : Staffed env r) (hkeep : KeepsEnabled r r')
    (hheight : r'.nBlockHeight = r.nBlockHeight) : Staffed env r' :=
  ⟨Nat.le_trans h.enabled hkeep.length_le, hheight ▸ h.fork⟩

theorem Staffed.advanceSlot {s s' : QPRegistry × Nat}
    (hs : Staffed env s.1) (h : advanceSlot env p s = .ok s') : Staffed env s'.1 := by
  have hpass : Staffed env (s.1.passSlot env p s.2) := by
    refine ⟨?_, ?_⟩
    · have hmin := min_three_passSlot env p s.2 s.1
      rwa [Nat.min_eq_left hs.enabled] at hmin
    · obtain ⟨_, _, _, _, _, hframe⟩ := passSlot_frame env p s.2 s.1
      rw [hframe]
      exact hs.fork
  refine hpass.keeps (keepsEnabled_of_eq (advanceSlot_mapStakers h)) ?_
  obtain ⟨q, hq⟩ := advanceSlot_renewed h
  rw [hq]
  rfl

theorem Staffed.startQueue (h : Staffed env r) : ∃ s, r.startQueue env p = some s ∧ Staffed env s.1 := by
  rw [QPRegistry.startQueue]
  split
  · cases hnew : r.newQueue env (p.nTime + 1) p.hashBlock with
    | none =>
      rw [newQueue] at hnew
      split at hnew
      · next hfew =>
        have hthree := h.enabled
        omega
      · cases hnew
    | some r' =>
      obtain ⟨-, -, -, -, hstakers, -, hheight, -⟩ := newQueue_spec hnew
      exact ⟨(r', 1), rfl, h.keeps (keepsEnabled_of_eq hstakers) hheight⟩
  · exact ⟨(r, 0), rfl, h⟩

/-- With three enabled stakers time passes without a failure, and three stay enabled. -/
theorem Staffed.advanceTime (h : Staffed env r) (nTime : UInt32) (p : CBlockIndex) :
    (r.advanceTime env nTime p).2 = true ∧ Staffed env (r.advanceTime env nTime p).1 := by
  rw [QPRegistry.advanceTime]
  split
  · obtain ⟨s, hs, hstaffed⟩ := h.startQueue (p := p)
    obtain ⟨hok, herror⟩ := @whileLoop_invariant _ _ (fun s => Staffed env s.1)
      (slotHasPassed nTime) (QPRegistry.advanceSlot env p) (fun _ => False)
      (fun _ _ hI _ hstep => hI.advanceSlot hstep)
      (fun x _ hI _ hstep => by
        -- a failed renewal would leave no enabled staker
        have hmin := min_three_passSlot env p x.2 x.1
        have hnone : (x.1.passSlot env p x.2).enabledIDs = [] := (advanceSlot_error hstep).2.1
        rw [Nat.min_eq_left hI.enabled, hnone] at hmin
        exact absurd hmin (by decide))
      advanceFuel s hstaffed
    rw [hs]
    dsimp only
    rw [advanceLoop]
    split
    · next hloop => exact (herror _ hloop).elim
    · next hloop => exact ⟨rfl, hok _ hloop⟩
  · exact ⟨rfl, h⟩

theorem keepsEnabled_crossFork (env : QPEnv) (nFork : Fork) (r : QPRegistry) :
    KeepsEnabled r (r.crossFork env nFork) ∧ (r.crossFork env nFork).nBlockHeight = r.nBlockHeight := by
  obtain ⟨f, heq, hf⟩ := crossFork_eq env nFork r
  rw [heq]
  refine ⟨keepsEnabled_map rfl fun n s hs => ?_, rfl⟩
  rcases hf n s with h | h | ⟨-, h⟩ <;> rw [h] <;> first | exact hs | rfl

theorem Staffed.of_sameState (h : Staffed env r) (hsame : SameState r r') : Staffed env r' := by
  obtain ⟨m, s, rfl⟩ := hsame.exists_withMode
  exact h.keeps (keepsEnabled_of_eq rfl) rfl

theorem Staffed.beforeAdvance (h : Staffed env r)
    (nSnapshotType : SnapshotType) (p b : CBlockIndex) (db : SnapshotDB) :
    Staffed env (r.beforeAdvance env nSnapshotType p b db) := by
  obtain ⟨hkeep, hheight⟩ := keepsEnabled_crossFork env (getFork env.fTestNet b.nHeight) r
  exact (h.keeps hkeep hheight).of_sameState (sameState_takeSnapshot env nSnapshotType p db _)

theorem keepsEnabled_applyOp {now : Int}
    {deet : QPTxDetails} (hids : IdsInOrder r) (hdeet : deet.t ≠ .disable)
    (h : r.applyOp env now b deet = .ok r') : KeepsEnabled r r' := by
  cases hpurchase : isPurchase deet with
  | true =>
    rw [applyOp_purchase hpurchase] at h
    obtain ⟨⟨s, hput⟩, -⟩ := applyPurchase_ok h
    refine keepsEnabled_insert hput fun t ht => ?_
    have hid := (hids _ t ht).2
    omega
  | false =>
    rcases (editsStaker_applyOp hpurchase h).stakers with hsame | ⟨s, s', hs, hput, hedit⟩
    · exact keepsEnabled_of_eq hsame
    · refine keepsEnabled_insert hput fun t ht => ?_
      rw [hs] at ht
      cases ht
      exact hedit.enabled hdeet

theorem keepsEnabled_applyOps {now : Int} :
    ∀ {deets : List QPTxDetails} {r r' : QPRegistry}, IdsInOrder r → (∀ deet ∈ deets, deet.t ≠ .disable) →
      r.applyOps env now b deets = .ok r' → KeepsEnabled r r'
  | [], r, r', _, _, h => by
    cases h
    exact .refl r
  | deet :: deets, r, r', hids, hdeets, h => by
    obtain ⟨hdeet, hrest⟩ := List.forall_mem_cons.1 hdeets
    rw [applyOps] at h
    split at h
    · cases h
    · next r₁ hop =>
      have hframe := opsFrame_applyOp env now b r deet
      rw [hop] at hframe
      exact (keepsEnabled_applyOp hids hdeet hop).trans
        (keepsEnabled_applyOps (hframe.ids hids) hrest h)

theorem keepsEnabled_stakerProducedBlock
    {nReward : Int} (hfork : Fork.reinstate ≤ getFork env.fTestNet r.nBlockHeight)
    (h : r.stakerProducedBlock env b nReward = some r') : KeepsEnabled r r' := by
  obtain ⟨s, s', balances, hs, -, hs', rfl⟩ := stakerProducedBlock_cases h
  refine keepsEnabled_insert rfl fun t ht hen => ?_
  rw [(getStakerInternal_eq_some.1 hs).2] at ht
  cases ht
  rcases hs' with rfl | ⟨hold, -⟩
  · exact hen
  · exact absurd hold (Fork.not_lt.2 hfork)

theorem Staffed.produceBlock (hstaffed : Staffed env r)
    (h : r.produceBlock env p b = .ok r') : 3 ≤ r'.enabledIDs.length := by
  by_cases hfork : Fork.qpos ≤ getFork env.fTestNet b.nHeight
  · obtain ⟨-, -, r₁, hr₁, rfl⟩ := produceBlock_ok hfork h
    have hkeep := keepsEnabled_stakerProducedBlock hstaffed.fork hr₁
    have hsaw : KeepsEnabled r₁ (r₁.setQueue
        (r₁.queue.slotProduced r.queue.nCurrentSlot).1).sawBlockAll.updateCertifiedNodesList := by
      refine keepsEnabled_map (f := fun _ s => if s.isQualified then s.sawBlock else s) rfl fun _ s hs => ?_
      split <;> exact hs
    exact Nat.le_trans hstaffed.enabled (hkeep.trans hsaw).length_le
  · rw [QPRegistry.produceBlock, if_neg hfork] at h
    cases h
    exact hstaffed.enabled

/-- A block from `XST_FORKREINSTATE` on without an operation that disables a staker. Other updates have
no operations. -/
def Update.DisablesNobody (env : QPEnv) : Update → Prop
  | .block _ _ _ _ pindex _ =>
    Fork.reinstate ≤ getFork env.fTestNet pindex.nHeight ∧ ∀ deet ∈ pindex.vDeets, deet.t ≠ .disable
  | .time _ _ | .exitReplay | .enterReplay | .sync _ => True

theorem Staffed.update {u : Update} (hr : Reachable env r)
    (hstaffed : Staffed env r) (hu : u.DisablesNobody env) (h : r.update env u = some r') :
    Staffed env r' := by
  cases u with
  | time nTime pindex =>
    cases h
    exact (hstaffed.advanceTime nTime pindex).2
  | block now nSnapshotType fJustCheck p b db =>
    rw [QPRegistry.update] at h
    split at h
    · next hblock =>
      cases h
      obtain ⟨r₁, r₂, hops, hprod, rfl⟩ :=
        finishBlock_accepted (updateOnNewBlock_accepted hblock).2
      have hadvanced := ((hstaffed.beforeAdvance nSnapshotType p b db).advanceTime b.nTime p).2
      have hids := ((hr.queueInv.beforeAdvance nSnapshotType p b db).advanceTime b.nTime p).ids
      have hheight := ((opsFrame_applyBlockOps env now fJustCheck b _).1 r₁ hops).height
      have happlied : Staffed env r₁ := by
        have hok := applyBlockOps_ok hops
        split at hok
        · exact hadvanced.keeps (keepsEnabled_applyOps hids hu.2 hok) hheight
        · exact hadvanced.keeps (keepsEnabled_of_eq (by rw [hok])) hheight
      have hthree := happlied.produceBlock hprod
      exact ⟨hthree, hu.1⟩
    · cases h
  | exitReplay =>
    cases h
    exact hstaffed.of_sameState rfl
  | enterReplay =>
    cases h
    rw [enterReplayMode]
    split <;> exact hstaffed.of_sameState rfl
  | sync now =>
    cases h
    rw [checkSynced]
    split <;> exact hstaffed.of_sameState rfl

theorem Staffed.runUpdates : ∀ {us : List Update} {r r' : QPRegistry}, Reachable env r →
    Staffed env r → (∀ u ∈ us, u.DisablesNobody env) → runUpdates env r us = some r' → Staffed env r'
  | [], r, r', _, hstaffed, _, h => by
    cases h
    exact hstaffed
  | u :: us, r, r', hr, hstaffed, hus, h => by
    obtain ⟨hu, hrest⟩ := List.forall_mem_cons.1 hus
    obtain ⟨r₁, hr₁, hrun⟩ := Option.bind_eq_some_iff.1 h
    exact Staffed.runUpdates (hr.update hr₁) (hstaffed.update hr hu hr₁) hrest hrun

/-- Automatic disabling leaves three stakers enabled. So after blocks that disable nobody the time update
always succeeds, on its own and within the next block. -/
theorem renewal_succeeds {env : QPEnv} {us : List Update} {r r' : QPRegistry} (hr : Reachable env r)
    (hfork : Fork.reinstate ≤ getFork env.fTestNet r.nBlockHeight)
    (hus : ∀ u ∈ us, u.DisablesNobody env) (h : runUpdates env r us = some r') :
    (∀ nID s nHeight, min 3 r'.getNumberEnabledInternal ≤
      (r'.disableStakerIfNecessary env nID s nHeight).getNumberEnabledInternal) ∧
    (3 ≤ r.getNumberEnabledInternal →
      3 ≤ r'.getNumberEnabledInternal ∧
      (∀ nTime pindex nSnapshotType db,
        (r'.updateOnNewTimeInternal env nTime pindex nSnapshotType db).2.2 = true) ∧
      ∀ nSnapshotType p b db,
        ((r'.beforeAdvance env nSnapshotType p b db).advanceTime env b.nTime p).2 = true) := by
  simp only [getNumberEnabled_eq]
  refine ⟨min_three_disableStakerIfNecessary env r', fun hthree => ?_⟩
  have hstaffed := Staffed.runUpdates hr ⟨hthree, hfork⟩ hus h
  refine ⟨hstaffed.enabled, fun nTime pindex nSnapshotType db => ?_, fun nSnapshotType p b db => ?_⟩
  · exact ((hstaffed.of_sameState (sameState_takeSnapshot env nSnapshotType pindex db r')).advanceTime
      nTime pindex).1
  · exact ((hstaffed.beforeAdvance nSnapshotType p b db).advanceTime b.nTime p).1

/-- Three stakers register and are enabled, and the first produces the block of `XST_FORKREINSTATE`. -/
def trioRun : List Update :=
  [.block 0 .noSnaps false (soloBlock 3657599) { soloBlock 3657600 with
      vDeets := [soloPurchase, { soloPurchase with sAlias := [116, 119, 111] },
        { soloPurchase with sAlias := [116, 114, 101] }] } ∅,
    .block 0 .noSnaps false (soloBlock 3657600) { soloBlock 3657601 with
      vDeets := [soloEnable, { soloEnable with id := 2 }, { soloEnable with id := 3 }] } ∅,
    .block 0 .noSnaps false (soloBlock 3776757) (soloBlock 3776758) ∅]

theorem renewal_succeeds_trio : ∃ r r', runUpdates mainEnv (empty mainEnv) trioRun = some r ∧
      runUpdates mainEnv r [.time (soloBlock 3776764).nTime (soloBlock 3776758)] = some r' ∧
      3 ≤ r'.getNumberEnabledInternal ∧
      ∀ nTime pindex nSnapshotType db,
        (r'.updateOnNewTimeInternal mainEnv nTime pindex nSnapshotType db).2.2 = true := by
  have hrun : ∃ r ∈ runUpdates mainEnv (empty mainEnv) trioRun, r.nBlockHeight = 3776758 ∧
      3 ≤ r.getNumberEnabledInternal := by decide +kernel
  obtain ⟨r, hr, hheight, hthree⟩ := hrun
  have hsucceeds := @renewal_succeeds mainEnv
    [.time (soloBlock 3776764).nTime (soloBlock 3776758)] r _ (Reachable.runUpdates .empty hr)
    (by rw [hheight]; decide) (by simp [Update.DisablesNobody]) rfl
  exact ⟨r, _, hr, rfl, (hsucceeds.2 hthree).1, (hsucceeds.2 hthree).2.1⟩

end Stealth.QPRegistry

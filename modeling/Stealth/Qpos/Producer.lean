import Stealth.Qpos.Runs
import Stealth.Qpos.Solo

/-! The staker that a block producer expects, and the one that the block update wants. -/

namespace Stealth.QPRegistry

open Loop

variable {nTime t : UInt32} {b p : CBlockIndex} {env : QPEnv} {nHeight : Int} {r : QPRegistry}

def getIDForCurrentSlot (r : QPRegistry) : Nat :=
  if r.queue.size = 0 then 0 else r.queue.getCurrentID

/-- `GetIDForCurrentTime`: the identifier, and whether a block should be produced; `nTime` is the
adjusted time. -/
def getIDForCurrentTime (env : QPEnv) (nTime : UInt32) (pindex : CBlockIndex) (r : QPRegistry) :
    Nat × Bool :=
  let advanced := ((r.updateOnNewTime env nTime pindex).1.getIDForCurrentSlot, true)
  if nTime < r.queue.getCurrentSlotStart then (r.queue.getCurrentID, false)
  else if nTime ≤ r.queue.getMaxTime then
    match r.queue.getSlotForTime nTime with
    | none => (0, false)
    | some nSlot =>
      if nSlot = r.queue.nCurrentSlot then (r.queue.getCurrentID, !r.fCurrentBlockWasProduced)
      else if nSlot < r.queue.nCurrentSlot then (r.queue.getCurrentID, false)
      else advanced
  else advanced

/-- The operations of a block apply to the registry that was advanced to its time. -/
def OpsApply (env : QPEnv) (now : Int) (nSnapshotType : SnapshotType) (fJustCheck : Bool)
    (p b : CBlockIndex) (db : SnapshotDB) (r : QPRegistry) : Prop :=
  ∃ r₂, ((r.beforeAdvance env nSnapshotType p b db).advanceTime env b.nTime p).1.applyBlockOps env now
    fJustCheck b = .ok r₂

/-- The block update gets to the slot check, and the producer of the block owns the current slot. -/
def PassesSlotCheck (env : QPEnv) (now : Int) (nSnapshotType : SnapshotType) (fJustCheck : Bool)
    (p b : CBlockIndex) (db : SnapshotDB) (r : QPRegistry) : Prop :=
  ∃ r₁ r₂, (r.beforeAdvance env nSnapshotType p b db).advanceTime env b.nTime p = (r₁, true) ∧
    r₁.applyBlockOps env now fJustCheck b = .ok r₂ ∧
    r₂.queue.getSlotForID b.nStakerID = some r₂.queue.nCurrentSlot

theorem getSlotForID_eq_current_iff {q : QPQueue} (hnodup : q.vStakerIDs.Nodup)
    (hslot : q.nCurrentSlot < q.vStakerIDs.length) (nID : Nat) :
    q.getSlotForID nID = some q.nCurrentSlot ↔ nID = q.getCurrentID := by
  have hcurrent : q.vStakerIDs[q.nCurrentSlot]? = some q.getCurrentID := by
    rw [QPQueue.getCurrentID, List.getD_eq_getElem?_getD, List.getElem?_eq_getElem hslot,
      Option.getD_some]
  constructor
  · intro h
    have hget := getSlotForID_spec h
    rw [hcurrent] at hget
    exact (Option.some.inj hget).symm
  · rintro rfl
    rw [QPQueue.getSlotForID, List.findIdx?_eq_some_iff_getElem]
    have hself : q.vStakerIDs[q.nCurrentSlot] = q.getCurrentID :=
      Option.some.inj ((List.getElem?_eq_getElem hslot).symm.trans hcurrent)
    refine ⟨hslot, beq_iff_eq.2 hself, fun j hj => ?_⟩
    rw [Bool.not_eq_true, beq_eq_false_iff_ne, ← hself]
    exact fun heq => Nat.ne_of_lt hj ((hnodup.getElem_inj_iff).1 heq)

/-- A time that the queue maps to its current slot is not after the end of that slot: a queue shorter
than the clock that wraps in this slot ends before its start. -/
theorem not_end_lt_of_getSlotForTime {q : QPQueue} (hsize : 5 * q.size ≤ 2 ^ 32)
    (hslot : q.nCurrentSlot < q.size) (h : q.getSlotForTime nTime = some q.nCurrentSlot) :
    ¬ q.getCurrentSlotEnd < nTime := by
  rw [QPQueue.getSlotForTime] at h
  split at h
  · cases h
  · next hlow =>
    split at h
    · cases h
    · next hmax =>
      have hdiv := Option.some.inj h
      rw [UInt32.not_lt] at hlow hmax
      rw [UInt32.toNat_div, UInt32.toNat_sub_of_le _ _ hlow] at hdiv
      rw [UInt32.le_iff_toNat_le] at hlow hmax
      have htime := nTime.toNat_lt
      have hstart :
          (q.slotStart q.nCurrentSlot).toNat = q.nSlotTime0.toNat + 5 * q.nCurrentSlot := by
        rw [QPQueue.slotStart, UInt32.toNat_add, UInt32.toNat_mul, UInt32.toNat_ofNat']
        simp only [QP_TARGET_SPACING, UInt32.reduceToNat] at hdiv ⊢
        omega
      rw [QPQueue.size] at hsize hslot
      rw [UInt32.lt_iff_toNat_lt, QPQueue.getCurrentSlotEnd]
      simp only [QPQueue.getMaxTime, QP_TARGET_SPACING, UInt32.toNat_sub, UInt32.toNat_add,
        UInt32.toNat_mul, UInt32.toNat_ofNat', UInt32.reduceToNat, hstart] at hdiv hmax ⊢
      rw [Nat.mod_eq_of_lt (show q.vStakerIDs.length < 2 ^ 32 by omega)] at hmax
      by_cases hwrap : q.nSlotTime0.toNat + 5 * q.nCurrentSlot + 5 ≤ 2 ^ 32
      · omega
      · exact absurd hmax (by omega)

section Past

variable {env : QPEnv} {r : QPRegistry} {p : CBlockIndex}

theorem walk_within (env : QPEnv) (p : CBlockIndex) (h : ¬ r.queue.getCurrentSlotEnd < t) :
    walk env p (r.slotsTo t) r = .ok (r, 0) := by
  rw [slotsTo, slotsPassed_of_not h, walk, iterateE]

theorem getIDForCurrentTime_eq {nID : Nat} (hOn : OnSlot (r, 0))
    (hfork : Fork.qpos ≤ getFork env.fTestNet (p.nHeight + 1)) (hsize : 5 * r.queue.size ≤ 2 ^ 32)
    (h : r.getIDForCurrentTime env t p = (nID, true)) :
    nID = (outcome (walk env p (r.slotsTo t) r)).1.getIDForCurrentSlot := by
  have hadvance : nID = (r.updateOnNewTime env t p).1.getIDForCurrentSlot →
      nID = (outcome (walk env p (r.slotsTo t) r)).1.getIDForCurrentSlot := by
    intro hid
    rwa [updateOnNewTime, advanceTime_eq_walk hOn t hfork] at hid
  rw [getIDForCurrentTime] at h
  split at h
  · cases h
  · split at h
    · split at h
      · cases h
      · next nSlot hslot =>
        split at h
        · next hcurrent =>
          -- the producer takes the current slot, and so does the advance
          rw [hcurrent] at hslot
          rw [walk_within env p (not_end_lt_of_getSlotForTime hsize hOn hslot)]
          have hne : r.queue.size ≠ 0 := Nat.ne_of_gt (Nat.zero_lt_of_lt hOn)
          rw [outcome, getIDForCurrentSlot, if_neg hne]
          exact (congrArg Prod.fst h).symm
        · split at h
          · cases h
          · exact hadvance (congrArg Prod.fst h).symm
    · exact hadvance (congrArg Prod.fst h).symm

/-- The advance succeeds within the queue in force, and past it while a staker is enabled. -/
theorem walk_ok (env : QPEnv) (p : CBlockIndex) {k : Nat} (h : k < r.slotsLeft ∨ r.enabledIDs ≠ []) :
    ∃ x, walk env p k r = .ok x := by
  rcases h with hlt | hen
  · rw [slotsLeft] at hlt
    obtain ⟨x, hx, -⟩ := iterateE_inner env p k (r, 0) (by dsimp only; omega)
    exact ⟨x, hx⟩
  · obtain ⟨x, hx, -⟩ := iterateE_enabled env p hen k 0
    exact ⟨x, hx⟩

/-- A block with the time and previous block of the producer passes the slot check exactly if it
names the producer's staker. -/
def Predicts (env : QPEnv) (t : UInt32) (p : CBlockIndex) (r : QPRegistry) (nID : Nat) : Prop :=
  ∀ now nSnapshotType fJustCheck b db, b.nTime = t → b.nHeight = p.nHeight + 1 →
    OpsApply env now nSnapshotType fJustCheck p b db r →
      (PassesSlotCheck env now nSnapshotType fJustCheck p b db r ↔ b.nStakerID = nID)

section Prediction

variable (hi : QueueInv env r) (hheight : Fork.missFix2 ≤ getFork env.fTestNet r.nBlockHeight)
  (hfork : Fork.qpos ≤ getFork env.fTestNet (p.nHeight + 1))

include hi hheight hfork

theorem advanceTime_beforeAdvance (nSnapshotType : SnapshotType) (b : CBlockIndex) (db : SnapshotDB) :
    ∃ a, SameResult (walk env p (r.slotsTo b.nTime) r) a ∧
      (r.beforeAdvance env nSnapshotType p b db).advanceTime env b.nTime p = outcome a := by
  have hsame := sameState_takeSnapshot env nSnapshotType p db r
  refine ⟨_, sameResult_takeSnapshot r b.nTime nSnapshotType db, ?_⟩
  rw [beforeAdvance, crossFork_of_le hheight,
    advanceTime_eq_walk (hsame.onSlot (hi.onSlot hheight)) b.nTime hfork]

theorem predicts_of_walk_ok {x : QPRegistry × Nat} (hx : walk env p (r.slotsTo t) r = .ok x) :
    Predicts env t p r x.1.getIDForCurrentSlot := by
  have hOn : OnSlot x := (iterateE_clock _ (hi.onSlot hheight) hx).1
  have hnodup := ((queueInv_iterateE p _ hi).1 x hx).nodup
  have hid : x.1.getIDForCurrentSlot = x.1.queue.getCurrentID :=
    if_neg (Nat.ne_of_gt (Nat.zero_lt_of_lt hOn))
  rintro now nSnapshotType fJustCheck b db rfl - ⟨r₂, hops⟩
  obtain ⟨a, hsame, hadv⟩ := advanceTime_beforeAdvance hi hheight hfork nSnapshotType b db
  rw [hx] at hsame
  cases a with
  | error y => exact hsame.elim
  | ok y =>
    obtain ⟨m, s, hy⟩ := SameState.exists_withMode hsame
    have hqueue : y.1.queue = x.1.queue := by
      rw [hy]
      rfl
    have hcheck : ∀ {r₃ : QPRegistry}, y.1.applyBlockOps env now fJustCheck b = .ok r₃ →
        (r₃.queue.getSlotForID b.nStakerID = some r₃.queue.nCurrentSlot ↔
          b.nStakerID = x.1.getIDForCurrentSlot) := by
      intro r₃ hr₃
      have hframe := (opsFrame_applyBlockOps env now fJustCheck b y.1).1 r₃ hr₃
      rw [hframe.queue, hqueue, hid]
      exact getSlotForID_eq_current_iff hnodup hOn b.nStakerID
    rw [hadv] at hops
    constructor
    · rintro ⟨r₁, r₃, hr₁, hr₃, hslot⟩
      rw [hadv] at hr₁
      cases hr₁
      exact (hcheck hr₃).1 hslot
    · exact fun heq => ⟨_, r₂, hadv, hops, (hcheck hops).2 heq⟩

theorem not_passesSlotCheck_of_walk_error {e : QPRegistry}
    (hx : walk env p (r.slotsTo b.nTime) r = .error e) (now : Int) (nSnapshotType : SnapshotType)
    (fJustCheck : Bool) (db : SnapshotDB) : ¬ PassesSlotCheck env now nSnapshotType fJustCheck p b db r := by
  rintro ⟨r₁, -, hr₁, -, -⟩
  obtain ⟨a, hsame, hadv⟩ := advanceTime_beforeAdvance hi hheight hfork nSnapshotType b db
  rw [hadv] at hr₁
  rw [hx] at hsame
  cases a with
  | error y => cases hr₁
  | ok y => exact hsame.elim

theorem not_predicts_of_walk_error {e : QPRegistry} (hx : walk env p (r.slotsTo t) r = .error e)
    (nID : Nat) : ¬ Predicts env t p r nID := by
  intro hpredicts
  -- a block without operations by the predicted staker
  let b : CBlockIndex := ⟨0, p.nHeight + 1, t, nID, 0, []⟩
  have hpasses := (hpredicts 0 .noSnaps false b ∅ rfl rfl
    ⟨_, applyBlockOps_nil rfl 0 false _⟩).2 rfl
  exact not_passesSlotCheck_of_walk_error (b := b) hi hheight hfork hx 0 .noSnaps false ∅ hpasses

end Prediction

/-- The producer names the staker that the block update wants, exactly when the time lies within the
queue in force or a staker is enabled to fill the next queue. -/
theorem predicts_iff {t : UInt32} {nID : Nat} (hr : Reachable env r)
    (hheight : Fork.missFix2 ≤ getFork env.fTestNet r.nBlockHeight) (hp : p.nHeight = r.nBlockHeight)
    (hsize : 5 * r.queue.size ≤ 2 ^ 32) (hid : r.getIDForCurrentTime env t p = (nID, true)) :
    Predicts env t p r nID ↔ r.slotsTo t < r.slotsLeft ∨ r.enabledIDs ≠ [] := by
  have hi := hr.queueInv
  have hOn := hi.onSlot hheight
  have hfork : Fork.qpos ≤ getFork env.fTestNet (p.nHeight + 1) := by
    have hmono := getFork_mono env.fTestNet (show r.nBlockHeight ≤ p.nHeight + 1 by omega)
    exact Nat.le_trans (show Fork.qpos.toNat ≤ Fork.missFix2.toNat by decide)
      (Nat.le_trans hheight hmono)
  have hname := getIDForCurrentTime_eq hOn hfork hsize hid
  constructor
  · intro hpredicts
    by_contra hnone
    rw [not_or, Nat.not_lt, not_not] at hnone
    obtain ⟨z, -, -, -, herror⟩ := walk_eq_error p hOn hi hnone.2
    exact not_predicts_of_walk_error hi hheight hfork (herror _ hnone.1) nID hpredicts
  · intro hsafe
    obtain ⟨x, hx⟩ := walk_ok env p hsafe
    rw [hx] at hname
    rw [hname]
    exact predicts_of_walk_ok hi hheight hfork hx

end Past

def soloDisable : QPTxDetails := { t := .disable, id := 1 }

/-- The only staker has produced a block in which it was disabled. -/
structure Stopped (nTime : UInt32) (nHeight : Int) (r : QPRegistry) : Prop where
  enabled : r.enabledIDs = []
  ids : r.queue.vStakerIDs = [1]
  slot : r.queue.nCurrentSlot = 0
  slotEnd : r.queue.getCurrentSlotEnd = nTime
  height : r.nBlockHeight = nHeight

theorem applyBlockOps_disable
    {s : QPStaker} (hs : r.mapStakers = only s) (hflaw : Flawless s nHeight) (hops : b.vDeets = [soloDisable])
    (hfork : Fork.qpos ≤ getFork env.fTestNet b.nHeight) (now : Int) (fJustCheck : Bool) :
    r.applyBlockOps env now fJustCheck b = .ok (r.putStaker 1 (s.disable b.nHeight)) := by
  have hget : r.mapStakers[soloDisable.id]? = some s := by
    rw [hs]
    rfl
  have hpurchase : Fork.purchase ≤ getFork env.fTestNet b.nHeight :=
    Nat.le_trans (show Fork.purchase.toNat ≤ Fork.qpos.toNat by decide) hfork
  rw [applyBlockOps, if_pos hpurchase, hops]
  simp only [applyOps, applyOp, show soloDisable.t = .disable from rfl, applySetState, hget,
    hflaw.not_disqualified, Bool.false_eq_true, if_false, reduceCtorEq, if_true]
  rfl

theorem Waiting.finishBlock_disable (h : Waiting nTime nHeight r) (hlt : nHeight < 2 ^ 32 - 1)
    (hb : b.nStakerID = 1) (hops : b.vDeets = [soloDisable]) (hheight : b.nHeight = nHeight + 1)
    (hpos : 0 < b.nHeight) (hfork : Fork.qpos ≤ getFork env.fTestNet b.nHeight) (now : Int)
    (fJustCheck : Bool) :
    ∃ r', r.finishBlock env now fJustCheck p b = (r', .accepted) ∧ Stopped nTime (nHeight + 1) r' := by
  obtain ⟨s, hs, hflaw⟩ := h.staker
  have hput : (r.putStaker 1 (s.disable b.nHeight)).mapStakers = only (s.disable b.nHeight) := by
    rw [putStaker, hs, insert_only]
  obtain ⟨r', hprod, htakes⟩ := produceBlock_only (p := p) hput h.counter h.ids h.slot h.stats
    h.produced h.prevProduced hflaw.not_disqualified
    (fun nReward => hflaw.not_shouldBeDisqualified hlt b.hashBlock nReward) hb hfork
  have happ := applyBlockOps_disable hs hflaw hops hfork now fJustCheck
  refine ⟨r'.setBlock b, by simp only [QPRegistry.finishBlock, happ, hprod], ?_⟩
  have hdisabled : ((s.disable b.nHeight).producedBlock b.hashBlock (getQPoSReward p)
      true).sawBlock.nHeightDisabled = b.nHeight := rfl
  exact
    { enabled := by
        rw [enabledIDs_congr (show (r'.setBlock b).mapStakers = r'.mapStakers from rfl), enabledIDs,
          htakes.stakers, toList_only]
        simp [QPStaker.isEnabled, hdisabled, Int.ne_of_gt hpos]
      ids := htakes.ids.trans h.ids
      slot := htakes.slot.trans h.slot
      slotEnd := htakes.slotEnd.trans h.slotEnd
      height := hheight }

theorem Filled.updateOnNewBlock_disable (h : Filled p.nTime nHeight r) (hlt : nHeight < 2 ^ 32 - 1)
    (hb : b.nStakerID = 1) (hops : b.vDeets = [soloDisable]) (hp : p.nHeight = nHeight)
    (hheight : b.nHeight = nHeight + 1) (hpos : 0 < b.nHeight)
    (hfork : Fork.qpos ≤ getFork env.fTestNet b.nHeight)
    (htime : b.nTime = p.nTime + QP_TARGET_SPACING) (hlate : p.nTime < b.nTime) (now : Int)
    (fJustCheck : Bool) (db : SnapshotDB) :
    ∃ r', (r.updateOnNewBlock env now .noSnaps fJustCheck p b db).2 = (r', .accepted) ∧
      Stopped b.nTime (nHeight + 1) r' := by
  obtain ⟨r₁, hwait, hupdate⟩ := h.updateOnNewBlock_eq hp hheight hfork htime hlate now fJustCheck db
  obtain ⟨r', hfin, hstop⟩ :=
    hwait.finishBlock_disable (p := p) hlt hb hops hheight hpos hfork now fJustCheck
  exact ⟨r', hupdate.trans hfin, hstop⟩

theorem Stopped.walk_error
    (h : Stopped nTime nHeight r) (hi : QueueInv env r) (p : CBlockIndex) (ht : nTime < t) :
    ∃ e, walk env p (r.slotsTo t) r = .error e ∧ e.queue.vStakerIDs = [1] ∧
      e.queue.nCurrentSlot = 0 := by
  have hOn : OnSlot (r, 0) := by simp [OnSlot, h.ids, h.slot]
  obtain ⟨z, hz, -, -, herror⟩ := walk_eq_error p hOn hi h.enabled
  have hge : r.slotsLeft ≤ r.slotsTo t := by
    rw [slotsTo, h.slotEnd, slotsPassed_of_lt ht, slotsLeft, h.ids, h.slot]
    exact Nat.le_add_left 1 _
  have hqueue : ((z.passSlot env p 0).endRound p.nMoneySupply).queue = z.queue :=
    passSlot_queue env p 0 z
  have hlast := hz.slot
  refine ⟨_, herror _ hge, by rw [hqueue, hz.ids, h.ids], ?_⟩
  rw [hz.ids, h.ids] at hlast
  rw [hqueue]
  exact Nat.succ.inj hlast

theorem Stopped.not_lt_start
    (h : Stopped nTime nHeight r) (hlow : QP_TARGET_SPACING ≤ nTime) (ht : nTime < t) :
    ¬ t < r.queue.getCurrentSlotStart := by
  have hsub : r.queue.getCurrentSlotStart = nTime - 4 := by
    rw [← h.slotEnd, QPQueue.getCurrentSlotEnd, QPQueue.getCurrentSlotStart, QP_TARGET_SPACING]
    grind
  rw [hsub, UInt32.lt_iff_toNat_lt, UInt32.toNat_sub_of_le]
  all_goals
    rw [QP_TARGET_SPACING, UInt32.le_iff_toNat_le] at hlow
    simp only [UInt32.lt_iff_toNat_lt, UInt32.le_iff_toNat_le, UInt32.reduceToNat] at hlow ht ⊢
    omega

/-- Past the queue of a registry without an enabled staker the producer still names a staker. -/
theorem Stopped.getIDForCurrentTime (h : Stopped nTime nHeight r) (hi : QueueInv env r)
    (hfork : Fork.qpos ≤ getFork env.fTestNet (p.nHeight + 1)) (hlow : QP_TARGET_SPACING ≤ nTime)
    (ht : nTime < t) : r.getIDForCurrentTime env t p = (1, true) := by
  have hOn : OnSlot (r, 0) := by simp [OnSlot, h.ids, h.slot]
  have hmax : r.queue.getMaxTime = nTime := by
    rw [← h.slotEnd, QPQueue.getCurrentSlotEnd, QPQueue.getMaxTime, QPQueue.slotStart, h.ids, h.slot]
    simp
  obtain ⟨e, herror, hids, hslot⟩ := h.walk_error hi p ht
  have hadv : (r.updateOnNewTime env t p).1 = e := by
    rw [updateOnNewTime, advanceTime_eq_walk hOn t hfork, herror]
    rfl
  rw [QPRegistry.getIDForCurrentTime, if_neg (h.not_lt_start hlow ht), hmax, if_neg (UInt32.not_le.2 ht), hadv,
    getIDForCurrentSlot, QPQueue.size, QPQueue.getCurrentID, hids, hslot]
  rfl

def soloDisablingBlock (n : Nat) : CBlockIndex := { soloBlock n with vDeets := [soloDisable] }

theorem replay_stopped :
    ∃ r, replay mainEnv blockClock (soloDisablingBlock 5572401 :: soloChain 5572400) = some r ∧
      Stopped (soloBlock 5572401).nTime 5572401 r := by
  obtain ⟨r, hr, hfill⟩ := replay_filled 1877300 (by decide)
  obtain ⟨r', hb, hstop⟩ := hfill.updateOnNewBlock_disable (p := soloBlock 5572400)
    (b := soloDisablingBlock 5572401) (by decide) rfl rfl rfl rfl (by decide)
    ((qpos_le_iff _).2 (by decide)) (soloBlock_nTime_succ 5572400) (soloBlock_nTime_lt (by decide))
    (blockClock (soloDisablingBlock 5572401)) false ∅
  refine ⟨r', ?_, hstop⟩
  obtain ⟨rest, hrest⟩ := soloChain_head 5572400
  rw [replay, show 5572400 = 3695100 + 1877300 from rfl, hr]
  refine connectBlock_eq_some.2 ?_
  rw [← show 5572400 = 3695100 + 1877300 from rfl, hrest]
  exact hb

/-- The producer names staker 1, and no block of that time passes the check. -/
theorem stopped_not_predicted :
    ∃ r, replay mainEnv blockClock (soloDisablingBlock 5572401 :: soloChain 5572400) = some r ∧
      Fork.missFix2 ≤ getFork mainEnv.fTestNet r.nBlockHeight ∧
      r.queue.getCurrentSlotStart ≤ (soloBlock 5572402).nTime ∧
      r.getIDForCurrentTime mainEnv (soloBlock 5572402).nTime (soloDisablingBlock 5572401) = (1, true) ∧
      ∀ now nSnapshotType fJustCheck b db, b.nTime = (soloBlock 5572402).nTime →
        ¬ PassesSlotCheck mainEnv now nSnapshotType fJustCheck (soloDisablingBlock 5572401) b db r := by
  obtain ⟨r, hr, hstop⟩ := replay_stopped
  have hi := (Reachable.replay hr).queueInv
  have hheight : Fork.missFix2 ≤ getFork mainEnv.fTestNet r.nBlockHeight := by
    rw [hstop.height]
    decide
  have hfork : Fork.qpos ≤ getFork mainEnv.fTestNet ((soloDisablingBlock 5572401).nHeight + 1) := by
    decide
  have ht : (soloBlock 5572401).nTime < (soloBlock 5572402).nTime := by decide
  refine ⟨r, hr, hheight, ?_, hstop.getIDForCurrentTime hi hfork (by decide) ht, ?_⟩
  · exact UInt32.not_lt.1 (hstop.not_lt_start (by decide) ht)
  · intro now nSnapshotType fJustCheck b db hb
    obtain ⟨e, herror, -⟩ := hstop.walk_error hi (soloDisablingBlock 5572401) ht
    rw [← hb] at herror
    exact not_passesSlotCheck_of_walk_error hi hheight hfork herror now nSnapshotType fJustCheck db

theorem predicts_iff_stopped :
    ∃ r, replay mainEnv blockClock (soloDisablingBlock 5572401 :: soloChain 5572400) = some r ∧
      (Predicts mainEnv (soloBlock 5572402).nTime (soloDisablingBlock 5572401) r 1 ↔
        r.slotsTo (soloBlock 5572402).nTime < r.slotsLeft ∨ r.enabledIDs ≠ []) := by
  obtain ⟨r, hr, hstop⟩ := replay_stopped
  have hreach := Reachable.replay hr
  refine ⟨r, hr, predicts_iff hreach ?_ ?_ ?_ ?_⟩
  · rw [hstop.height]
    decide
  · rw [hstop.height]
    rfl
  · rw [QPQueue.size, hstop.ids]
    decide
  · exact hstop.getIDForCurrentTime hreach.queueInv (by decide) (by decide) (by decide)

end Stealth.QPRegistry

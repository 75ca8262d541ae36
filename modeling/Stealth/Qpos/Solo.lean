import Stealth.Qpos.Agreement
import Stealth.Qpos.Nfts
import Stealth.Qpos.Replay

/-! Registries with a single staker who fills every slot: their chains run to any height. -/

namespace Stealth.QPRegistry

open Loop

variable {s : QPStaker} {nHeight : Int} {r : QPRegistry} {b p : CBlockIndex} {env : QPEnv} {nTime : UInt32} {n : Nat}

/-- A staker without a miss, enabled, and with no more blocks than the chain has. -/
structure Flawless (s : QPStaker) (nHeight : Int) : Prop where
  qualified : s.fQualified = true
  enabled : s.nHeightDisabled = 0
  missed : s.nBlocksMissed = 0
  prevMissed : s.nPrevBlocksMissed = 0
  docked : s.nBlocksDocked = 0
  produced : (s.nBlocksProduced.toNat : Int) ≤ nHeight

def only (s : QPStaker) : Map Nat QPStaker := (∅ : Map Nat QPStaker).insert 1 s

theorem toList_only (s : QPStaker) : (only s).toList = [(1, s)] := rfl

theorem map_only (f : Nat → QPStaker → QPStaker) (s : QPStaker) : (only s).map f = only (f 1 s) := rfl

theorem insert_only (s s' : QPStaker) : (only s).insert 1 s' = only s' := insert_insert _ 1 s s'

/-- A registry whose only staker holds the current slot, which has no block yet. -/
structure Waiting (nTime : UInt32) (nHeight : Int) (r : QPRegistry) : Prop where
  staker : ∃ s, r.mapStakers = only s ∧ Flawless s nHeight
  counter : r.nIDCounter = 1
  ids : r.queue.vStakerIDs = [1]
  slot : r.queue.nCurrentSlot = 0
  stats : r.queue.vchBlockStats.length = 1
  slotEnd : r.queue.getCurrentSlotEnd = nTime
  produced : r.fCurrentBlockWasProduced = false
  prevProduced : r.fPrevBlockWasProduced = true
  height : r.nBlockHeight = nHeight

/-- A registry whose only staker has filled the current slot. -/
structure Filled (nTime : UInt32) (nHeight : Int) (r : QPRegistry) : Prop where
  staker : ∃ s, r.mapStakers = only s ∧ Flawless s nHeight
  counter : r.nIDCounter = 1
  ids : r.queue.vStakerIDs = [1]
  slot : r.queue.nCurrentSlot = 0
  slotEnd : r.queue.getCurrentSlotEnd = nTime
  produced : r.fCurrentBlockWasProduced = true
  prevProduced : r.fPrevBlockWasProduced = true
  height : r.nBlockHeight = nHeight

theorem Flawless.not_disqualified (h : Flawless s nHeight) :
    s.isDisqualified = false := by simp [QPStaker.isDisqualified, h.qualified]

theorem Flawless.isEnabled (h : Flawless s nHeight) :
    s.isEnabled = true := by simp [QPStaker.isEnabled, h.qualified, h.enabled]

theorem Flawless.producedBlock (h : Flawless s nHeight) (hash : Uint256) (nReward : Int) :
    Flawless (s.producedBlock hash nReward true).sawBlock (nHeight + 1) where
  qualified := h.qualified
  enabled := h.enabled
  missed := h.missed
  prevMissed := h.prevMissed
  docked := h.docked
  produced := by
    have hle : (s.nBlocksProduced + 1).toNat ≤ s.nBlocksProduced.toNat + 1 := by
      rw [UInt32.toNat_add]
      exact Nat.mod_le _ _
    have := h.produced
    change ((s.nBlocksProduced + 1).toNat : Int) ≤ nHeight + 1
    omega

theorem min_zero_left (x : UInt32) : min 0 x = 0 :=
  if_pos (UInt32.le_iff_toNat_le.2 (Nat.zero_le _))

/-- A staker with a block and without misses is not disqualified, whatever the bound. -/
theorem Flawless.not_shouldBeDisqualified (h : Flawless s nHeight)
    (hlt : nHeight < 2 ^ 32 - 1) (hash : Uint256) (nReward : Int) (nMax : UInt32) :
    (s.producedBlock hash nReward true).shouldBeDisqualified nMax = false := by
  have hprev : (s.producedBlock hash nReward true).getPrevRecentBlocksMissed = 0 := by
    simp [QPStaker.getPrevRecentBlocksMissed, QPStaker.producedBlock,
      QPStaker.updatePrevRecentBlocks, h.prevMissed, min_zero_left]
  have hrecent : (s.producedBlock hash nReward true).getRecentBlocksMissed = 0 := by
    simp [QPStaker.getRecentBlocksMissed, QPStaker.producedBlock,
      QPStaker.updatePrevRecentBlocks, h.missed, min_zero_left]
  have hnet : (s.producedBlock hash nReward true).getNetBlocks = s.nBlocksProduced + 1 := by
    have hpos : ¬ s.nBlocksProduced + 1 ≤ 0 := by
      have := h.produced
      rw [UInt32.le_iff_toNat_le, UInt32.toNat_add]
      simp only [UInt32.toNat_one, UInt32.toNat_zero]
      omega
    simp [QPStaker.getNetBlocks, QPStaker.producedBlock, QPStaker.updatePrevRecentBlocks, h.docked,
      hpos]
  have hne : (s.nBlocksProduced + 1 == 0) = false := by
    have := h.produced
    rw [beq_eq_false_iff_ne]
    intro h0
    have := congrArg UInt32.toNat h0
    rw [UInt32.toNat_add] at this
    simp only [UInt32.toNat_one, UInt32.toNat_zero] at this
    omega
  simp [QPStaker.shouldBeDisqualified, hprev, hrecent, hnet, hne]

/-- What a block of the only staker leaves in the registry. -/
structure Takes (r : QPRegistry) (s' : QPStaker) (r' : QPRegistry) : Prop where
  stakers : r'.mapStakers = only s'
  counter : r'.nIDCounter = 1
  ids : r'.queue.vStakerIDs = r.queue.vStakerIDs
  slot : r'.queue.nCurrentSlot = r.queue.nCurrentSlot
  slotEnd : r'.queue.getCurrentSlotEnd = r.queue.getCurrentSlotEnd
  produced : r'.fCurrentBlockWasProduced = true
  prevProduced : r'.fPrevBlockWasProduced = true

theorem stakerProducedBlock_only (env : QPEnv)
    {nReward : Int} (hs : r.mapStakers = only s) (hcount : r.nIDCounter = 1)
    (hprev : r.fPrevBlockWasProduced = true) (hq : s.isDisqualified = false)
    (hkeep : ∀ nMax, (s.producedBlock b.hashBlock nReward true).shouldBeDisqualified nMax = false)
    (hb : b.nStakerID = 1) : ∃ r', r.stakerProducedBlock env b nReward = some r' ∧ r'.queue = r.queue ∧
      Takes r (s.producedBlock b.hashBlock nReward true) r' := by
  have hget : r.getStakerInternal 1 = some s :=
    getStakerInternal_eq_some.2 ⟨⟨by decide, Nat.le_of_eq hcount.symm⟩, by rw [hs]; rfl⟩
  have hdisq : ∀ q : QPRegistry,
      q.disqualifyStakerIfNecessary env 1 (s.producedBlock b.hashBlock nReward true) = q := by
    intro q
    simp [disqualifyStakerIfNecessary, hkeep]
  have hsome : r.stakerProducedBlock env b nReward ≠ none := by
    simp [QPRegistry.stakerProducedBlock, hb, hget, hq]
  obtain ⟨r', hr'⟩ := Option.ne_none_iff_exists'.1 hsome
  refine ⟨r', hr', ?_⟩
  simp only [QPRegistry.stakerProducedBlock, hb, hget, hq, hprev,
    Bool.false_eq_true, if_false, hdisq, ite_self, Option.some.injEq] at hr'
  have hqueue : r'.queue = r.queue := by
    subst hr'
    (repeat' split) <;> rfl
  refine ⟨hqueue, ⟨?_, ?_, by rw [hqueue], by rw [hqueue], by rw [hqueue], ?_, ?_⟩⟩
  · subst hr'
    (repeat' split) <;> simp [recordSlot, setProduced, credit, putStaker, pushPower, hs, insert_only]
  · subst hr'
    (repeat' split) <;> exact hcount
  · subst hr'
    rfl
  · subst hr'
    rfl

theorem produceBlock_only
    (hs : r.mapStakers = only s) (hcount : r.nIDCounter = 1) (hids : r.queue.vStakerIDs = [1])
    (hslot : r.queue.nCurrentSlot = 0) (hstats : r.queue.vchBlockStats.length = 1)
    (hproduced : r.fCurrentBlockWasProduced = false) (hprev : r.fPrevBlockWasProduced = true)
    (hq : s.isDisqualified = false) (hkeep : ∀ nReward nMax,
      (s.producedBlock b.hashBlock nReward true).shouldBeDisqualified nMax = false)
    (hb : b.nStakerID = 1) (hfork : Fork.qpos ≤ getFork env.fTestNet b.nHeight) :
    ∃ r', r.produceBlock env p b = .ok r' ∧
      Takes r (s.producedBlock b.hashBlock (getQPoSReward p) true).sawBlock r' := by
  obtain ⟨r', hprod, hqueue, htakes⟩ :=
    stakerProducedBlock_only env hs hcount hprev hq (hkeep (getQPoSReward p)) hb
  have hget : r.queue.getSlotForID 1 = some 0 := by
    simp [QPQueue.getSlotForID, hids]
  have hset : (r.queue.slotProduced 0).2 = 1 := by
    obtain ⟨ch, hch⟩ := List.length_eq_one_iff.1 hstats
    have hbit : (setBit [ch] 7).2 = 1 := by
      simp only [setBit]
      rfl
    simpa only [QPQueue.slotProduced, hch, hids, List.length_singleton, Nat.zero_add] using hbit
  refine ⟨(r'.setQueue (r.queue.slotProduced 0).1).sawBlockAll.updateCertifiedNodesList, ?_, ?_⟩
  · simp [produceBlock, hfork, hb, hget, hslot, hproduced, hprod, hqueue, hset]
  · have hqual : (s.producedBlock b.hashBlock (getQPoSReward p) true).isQualified = true := by
      have hs' : s.fQualified = true := by simpa [QPStaker.isDisqualified] using hq
      exact hs'
    exact
      { stakers := by
          simp only [updateCertifiedNodesList, sawBlockAll, setQueue, htakes.stakers, map_only, hqual,
            if_true]
        counter := htakes.counter
        ids := rfl
        slot := rfl
        slotEnd := rfl
        produced := htakes.produced
        prevProduced := htakes.prevProduced }

theorem Waiting.finishBlock (h : Waiting nTime nHeight r) (hlt : nHeight < 2 ^ 32 - 1)
    (hb : b.nStakerID = 1) (hops : b.vDeets = []) (hheight : b.nHeight = nHeight + 1)
    (hfork : Fork.qpos ≤ getFork env.fTestNet b.nHeight) (now : Int) (fJustCheck : Bool) :
    ∃ r', r.finishBlock env now fJustCheck p b = (r', .accepted) ∧ Filled nTime (nHeight + 1) r' := by
  obtain ⟨s, hs, hflaw⟩ := h.staker
  obtain ⟨r', hprod, htakes⟩ := produceBlock_only (p := p) hs h.counter h.ids h.slot h.stats
    h.produced h.prevProduced hflaw.not_disqualified
    (fun nReward => hflaw.not_shouldBeDisqualified hlt b.hashBlock nReward) hb hfork
  have happ : r.applyBlockOps env now fJustCheck b = .ok r := by
    simp [applyBlockOps, hops, applyOps]
  refine ⟨r'.setBlock b, by simp only [QPRegistry.finishBlock, happ, hprod], ?_⟩
  exact
    { staker := ⟨_, htakes.stakers, hflaw.producedBlock b.hashBlock (getQPoSReward p)⟩
      counter := htakes.counter
      ids := htakes.ids.trans h.ids
      slot := htakes.slot.trans h.slot
      slotEnd := htakes.slotEnd.trans h.slotEnd
      produced := htakes.produced
      prevProduced := htakes.prevProduced
      height := hheight }

theorem Filled.onSlot (h : Filled nTime nHeight r) : OnSlot (r, 0) := by
  simp [OnSlot, h.slot, h.ids]

theorem enabledIDs_only (hs : r.mapStakers = only s) (hflaw : Flawless s nHeight) : r.enabledIDs = [1] := by
  simp [enabledIDs, hs, toList_only, hflaw.isEnabled]

theorem newQueue_only (env : QPEnv)
    (hs : r.mapStakers = only s) (hflaw : Flawless s nHeight) (nTime0 : UInt32) (hash : Uint256) :
    ∃ r', r.newQueue env nTime0 hash = some r' ∧ r'.mapStakers = only s ∧
      r'.nIDCounter = r.nIDCounter ∧ r'.queue = .start nTime0 [1] ∧
      r'.fCurrentBlockWasProduced = r.fCurrentBlockWasProduced ∧
      r'.fPrevBlockWasProduced = r.fPrevBlockWasProduced ∧ r'.nBlockHeight = r.nBlockHeight := by
  have hen := enabledIDs_only hs hflaw
  have hsome : r.newQueue env nTime0 hash ≠ none := by simp [newQueue, hen]
  obtain ⟨r', hr'⟩ := Option.ne_none_iff_exists'.1 hsome
  refine ⟨r', hr', ?_⟩
  simp only [newQueue, hen, List.length_singleton, Nat.lt_irrefl, if_false, Option.some.injEq] at hr'
  subst hr'
  exact ⟨hs, rfl, rfl, rfl, rfl, rfl⟩

theorem start_slotEnd (nTime0 : UInt32) :
    (QPQueue.start nTime0 [1]).getCurrentSlotEnd = nTime0 + QP_TARGET_SPACING - 1 := by
  simp [QPQueue.getCurrentSlotEnd, QPQueue.slotStart, QPQueue.start]

theorem Filled.advanceSlot (env : QPEnv) (h : Filled nTime nHeight r) (p : CBlockIndex) (n : Nat) :
    ∃ r', advanceSlot env p (r, n) = .ok (r', n + 1) ∧ Waiting (nTime + QP_TARGET_SPACING) nHeight r' := by
  obtain ⟨s, hs, hflaw⟩ := h.staker
  have hpass : r.passSlot env p n = r := by simp [passSlot, h.produced]
  have hinc : r.queue.incrementSlot = none := by simp [QPQueue.incrementSlot, h.slot, h.ids]
  obtain ⟨r', hnew, hst, hcount, hqueue, -, hpp, hht⟩ :=
    newQueue_only env (r := r.endRound p.nMoneySupply) hs hflaw
      ((r.endRound p.nMoneySupply).queue.getMaxTime + 1) (r.endRound p.nMoneySupply).hashBlock
  refine ⟨(r'.setProduced false).checkPower env, ?_, ?_⟩
  · simp only [QPRegistry.advanceSlot, hpass, nextSlot, hinc, hnew]
  · obtain ⟨f, m, hpow⟩ := checkPower_frame env (r'.setProduced false)
    rw [hpow]
    refine ⟨⟨s, hst, hflaw⟩, hcount.trans h.counter, ?_, ?_, ?_, ?_, rfl, hpp.trans h.prevProduced,
      hht.trans h.height⟩
    · exact congrArg QPQueue.vStakerIDs hqueue
    · exact congrArg QPQueue.nCurrentSlot hqueue
    · exact congrArg (fun q => q.vchBlockStats.length) hqueue
    · refine (congrArg QPQueue.getCurrentSlotEnd hqueue).trans ?_
      have hend := h.slotEnd
      simp only [QPQueue.getCurrentSlotEnd, QPQueue.slotStart, h.slot] at hend
      rw [start_slotEnd, ← hend]
      simp only [endRound, purgeLowBalances, dockInactiveKeys, QPQueue.getMaxTime, h.ids,
        List.length_singleton]
      grind

theorem Flawless.resetDocked (h : Flawless s nHeight) : Flawless s.resetDocked nHeight :=
  ⟨h.qualified, h.enabled, h.missed, h.prevMissed, rfl, h.produced⟩

def withStakers (r : QPRegistry) (m : Map Nat QPStaker) : QPRegistry := { r with mapStakers := m }

theorem crossFork_only (env : QPEnv) (nFork : Fork)
    (hs : r.mapStakers = only s) (hflaw : Flawless s nHeight) :
    ∃ s', r.crossFork env nFork = r.withStakers (only s') ∧ Flawless s' nHeight := by
  obtain ⟨f, heq, hf⟩ := crossFork_eq env nFork r
  refine ⟨f 1 s, by rw [heq, hs, map_only]; rfl, ?_⟩
  rcases hf 1 s with h | h | ⟨hq, -⟩
  · rwa [h]
  · exact h ▸ hflaw.resetDocked
  · exact absurd hq (Bool.eq_false_iff.1 hflaw.not_disqualified)

theorem Filled.crossFork (env : QPEnv)
    (h : Filled nTime nHeight r) (nFork : Fork) : Filled nTime nHeight (r.crossFork env nFork) := by
  obtain ⟨s, hs, hflaw⟩ := h.staker
  obtain ⟨s', heq, hflaw'⟩ := crossFork_only env nFork hs hflaw
  rw [heq]
  exact ⟨⟨s', rfl, hflaw'⟩, h.counter, h.ids, h.slot, h.slotEnd, h.produced, h.prevProduced, h.height⟩

theorem takeSnapshot_noSnaps (env : QPEnv) (p : CBlockIndex) (db : SnapshotDB) (r : QPRegistry) :
    r.takeSnapshot env .noSnaps p db = (db, r) := by
  simp [takeSnapshot, snapshotIsDue]

theorem updateOnNewBlock_noSnaps (env : QPEnv) (now : Int) (fJustCheck : Bool) (p b : CBlockIndex)
    (db : SnapshotDB) (r : QPRegistry) : (r.updateOnNewBlock env now .noSnaps fJustCheck p b db).2 =
      afterAdvance env now fJustCheck p b
        ((r.crossFork env (getFork env.fTestNet b.nHeight)).advanceTime env b.nTime p) := by
  rw [updateOnNewBlock_snd, beforeAdvance, takeSnapshot_noSnaps]
  rfl

theorem Filled.advanceTime {nTime' : UInt32} (h : Filled nTime nHeight r)
    (hfork : Fork.qpos ≤ getFork env.fTestNet (p.nHeight + 1)) (htime : nTime' = nTime + QP_TARGET_SPACING)
    (hlate : nTime < nTime') : ∃ r₁, Waiting nTime' nHeight r₁ ∧ r.advanceTime env nTime' p = (r₁, true) := by
  obtain ⟨r₁, hadv, hwait⟩ := h.advanceSlot env p 0
  have hslots : r.slotsTo nTime' = 1 := by
    rw [slotsTo, h.slotEnd, slotsPassed_of_lt hlate, ← htime, slotsPassed_of_not (UInt32.lt_irrefl _)]
  refine ⟨r₁, htime ▸ hwait, ?_⟩
  rw [advanceTime_eq_walk h.onSlot _ hfork, hslots, walk]
  simp only [iterateE, hadv]
  rfl

theorem Filled.updateOnNewBlock_eq
    (h : Filled p.nTime nHeight r) (hp : p.nHeight = nHeight) (hheight : b.nHeight = nHeight + 1)
    (hfork : Fork.qpos ≤ getFork env.fTestNet b.nHeight) (htime : b.nTime = p.nTime + QP_TARGET_SPACING)
    (hlate : p.nTime < b.nTime) (now : Int) (fJustCheck : Bool) (db : SnapshotDB) :
    ∃ r₁, Waiting b.nTime nHeight r₁ ∧
      (r.updateOnNewBlock env now .noSnaps fJustCheck p b db).2 =
        r₁.finishBlock env now fJustCheck p b := by
  have hc := h.crossFork env (getFork env.fTestNet b.nHeight)
  obtain ⟨r₁, hwait, hadv⟩ := hc.advanceTime (p := p) (by rw [hp, ← hheight]; exact hfork) htime hlate
  refine ⟨r₁, hwait, ?_⟩
  rw [updateOnNewBlock_noSnaps, hadv]
  rfl

/-- A block one slot after the last one, by the only staker and without operations, is accepted. -/
theorem Filled.updateOnNewBlock
    (h : Filled p.nTime nHeight r) (hlt : nHeight < 2 ^ 32 - 1) (hb : b.nStakerID = 1)
    (hops : b.vDeets = []) (hp : p.nHeight = nHeight) (hheight : b.nHeight = nHeight + 1)
    (hfork : Fork.qpos ≤ getFork env.fTestNet b.nHeight) (htime : b.nTime = p.nTime + QP_TARGET_SPACING)
    (hlate : p.nTime < b.nTime) (now : Int) (fJustCheck : Bool) (db : SnapshotDB) :
    ∃ r', (r.updateOnNewBlock env now .noSnaps fJustCheck p b db).2 = (r', .accepted) ∧
      Filled b.nTime (nHeight + 1) r' := by
  obtain ⟨r₁, hwait, hupdate⟩ := h.updateOnNewBlock_eq hp hheight hfork htime hlate now fJustCheck db
  obtain ⟨r', hfin, hfill⟩ := hwait.finishBlock (p := p) hlt hb hops hheight hfork now fJustCheck
  exact ⟨r', hupdate.trans hfin, hfill⟩

theorem updateOnNewBlock_before
    (hp : getFork env.fTestNet (p.nHeight + 1) < .qpos) (hb : getFork env.fTestNet b.nHeight < .qpos)
    (now : Int) (db : SnapshotDB) (r : QPRegistry) : (r.updateOnNewBlock env now .noSnaps false p b db).2 =
      match r.applyBlockOps env now false b with
      | .error e => e
      | .ok r' => (r'.setBlock b, .accepted) := by
  have hcross : r.crossFork env (getFork env.fTestNet b.nHeight) = r := by
    have h1 : ¬ Fork.missFix2 ≤ getFork env.fTestNet b.nHeight :=
      Fork.not_le.2 (Nat.lt_trans (Fork.lt_def.1 hb) (by decide))
    have h2 : ¬ Fork.reinstate ≤ getFork env.fTestNet b.nHeight :=
      Fork.not_le.2 (Nat.lt_trans (Fork.lt_def.1 hb) (by decide))
    simp [crossFork, h1, h2]
  rw [updateOnNewBlock_noSnaps, hcross, advanceTime, if_neg (Fork.not_le.2 hp)]
  change r.finishBlock env now false p b = _
  unfold QPRegistry.finishBlock
  cases r.applyBlockOps env now false b with
  | error e => rfl
  | ok r' => simp only [produceBlock, if_neg (Fork.not_le.2 hb)]

/-- The main network, with its characters, its genesis block and its default power threshold. -/
def mainEnv : QPEnv where
  fTestNet := false
  hashGenesisBlock := 0x1aaa07c5805c4ea8aee33c9f16a057215bc06d59f94fc12132c6135ed2d9712a
  nfts := mainNfts
  queueSeed hash := UInt32.ofNat hash.toNat
  shuffler _ i := i
  minPicoPower := QP_MIN_PICO_POWER
  uninitMissedMax := 0

def soloKey : CPubKey := 2 :: List.replicate 32 7

def soloPurchase : QPTxDetails :=
  { t := .purchase1, sAlias := [108, 111, 110, 101], keys := [soloKey], value := 5000000000 }

def soloEnable : QPTxDetails := { t := .enable, id := 1 }

/-- One block every five seconds: the staker registers with `XST_FORKPURCHASE`, is enabled in the
next block, and produces every block from `XST_FORKQPOS` on. -/
def soloBlock (n : Nat) : CBlockIndex where
  hashBlock := BitVec.ofNat 256 (n + 1)
  nHeight := n
  nTime := UInt32.ofNat (1403684997 + 5 * n)
  nStakerID := if n < 3695100 then 0 else 1
  nMoneySupply := 30000000000000
  vDeets := if n = 3657600 then [soloPurchase] else if n = 3657601 then [soloEnable] else []

def soloChain : Nat → Chain
  | 0 => [soloBlock 0]
  | n + 1 => soloBlock (n + 1) :: soloChain n

theorem soloChain_head (n : Nat) : ∃ rest, soloChain n = soloBlock n :: rest := by
  cases n with
  | zero => exact ⟨[], rfl⟩
  | succ n => exact ⟨soloChain n, rfl⟩

theorem linked_soloChain : ∀ n, Linked (soloChain n)
  | 0 => rfl
  | n + 1 => by
    obtain ⟨rest, hrest⟩ := soloChain_head n
    have ih := linked_soloChain n
    rw [soloChain, hrest]
    rw [hrest] at ih
    exact ⟨by simp [soloBlock], ih⟩

theorem soloBlock_nTime_succ (n : Nat) :
    (soloBlock (n + 1)).nTime = (soloBlock n).nTime + QP_TARGET_SPACING := by
  simp only [soloBlock]
  rw [show 1403684997 + 5 * (n + 1) = 1403684997 + 5 * n + 5 by omega, UInt32.ofNat_add]
  rfl

theorem soloBlock_nTime_lt (h : n < 10000000) : (soloBlock n).nTime < (soloBlock (n + 1)).nTime := by
  rw [UInt32.lt_iff_toNat_lt]
  simp only [soloBlock, UInt32.toNat_ofNat']
  rw [Nat.mod_eq_of_lt (by omega), Nat.mod_eq_of_lt (by omega)]
  omega

theorem le_getFork_mainEnv {h : Int} {f : Fork} (hmem : (h, f) ∈ mapForksMainNet) (hf : .genesis < f)
    (n : Int) : f ≤ getFork mainEnv.fTestNet n ↔ h ≤ n := le_getFork_iff hmem hf n

theorem qpos_le_iff (n : Int) : Fork.qpos ≤ getFork mainEnv.fTestNet n ↔ 3695100 ≤ n :=
  le_getFork_mainEnv (by decide) (by decide) n

def fresh (n : Nat) : QPRegistry := (empty mainEnv).setBlock (soloBlock n)

theorem soloBlock_ops (h : n ≠ 3657600) (h' : n ≠ 3657601) : (soloBlock n).vDeets = [] := by
  simp [soloBlock, h, h']

theorem applyBlockOps_nil (h : b.vDeets = []) (now : Int)
    (fJustCheck : Bool) (r : QPRegistry) : r.applyBlockOps env now fJustCheck b = .ok r := by
  simp [applyBlockOps, h, applyOps]

theorem updateOnNewBlock_idle (hb : b.nHeight < 3695100) (hp : p.nHeight + 1 < 3695100) (hops : b.vDeets = [])
    (now : Int) (db : SnapshotDB) (r : QPRegistry) :
    (r.updateOnNewBlock mainEnv now .noSnaps false p b db).2 = (r.setBlock b, .accepted) := by
  have hfork : ∀ n : Int, n < 3695100 → getFork mainEnv.fTestNet n < .qpos := fun n hn =>
    Fork.not_le.1 fun h => absurd ((qpos_le_iff n).1 h) (Int.not_le.2 hn)
  rw [updateOnNewBlock_before (hfork _ hp) (hfork _ hb), applyBlockOps_nil hops]

theorem connectBlock_idle (hb : b.nHeight < 3695100) (hp : p.nHeight + 1 < 3695100) (hops : b.vDeets = [])
    (now : Int) (rest : Chain) (r : QPRegistry) :
    connectBlock mainEnv now b (p :: rest) r = some (r.setBlock b) :=
  connectBlock_eq_some.2 (updateOnNewBlock_idle hb hp hops now ∅ r)

theorem connectBlock_cons (env : QPEnv) (now : Int) (b p : CBlockIndex) (rest : Chain) :
    connectBlock env now b (p :: rest) = connectBlock env now b [p] := rfl

theorem replay_soloChain_bind (now : CBlockIndex → Int) {m : Nat} (h : m = n + 1) :
    replay mainEnv now (soloChain m) = (replay mainEnv now (soloChain n)).bind
      (connectBlock mainEnv (now (soloBlock m)) (soloBlock m) [soloBlock n]) := by
  subst h
  obtain ⟨rest, hrest⟩ := soloChain_head n
  rw [soloChain, replay, hrest, connectBlock_cons]

theorem replay_soloChain_succ (now : CBlockIndex → Int) (n : Nat) {r' : QPRegistry}
    (h : replay mainEnv now (soloChain n) = some r)
    (hb : (r.updateOnNewBlock mainEnv (now (soloBlock (n + 1))) .noSnaps false (soloBlock n)
      (soloBlock (n + 1)) ∅).2 = (r', .accepted)) : replay mainEnv now (soloChain (n + 1)) = some r' := by
  rw [replay_soloChain_bind now rfl, h, Option.bind_some, connectBlock_eq_some]
  exact hb

theorem connectBlock_soloBlock (hn : n + 1 < 3695100) (h : n + 1 ≠ 3657600) (h' : n + 1 ≠ 3657601) (now : Int)
    (r : QPRegistry) : connectBlock mainEnv now (soloBlock (n + 1)) [soloBlock n] r =
      some (r.setBlock (soloBlock (n + 1))) :=
  connectBlock_idle (by simp only [soloBlock]; omega) (by simp only [soloBlock]; omega) (soloBlock_ops h h') now [] r

theorem replay_fresh (now : CBlockIndex → Int) : ∀ n < 3657600,
    replay mainEnv now (soloChain n) = some (fresh n)
  | 0, _ => (@connectBlock_eq_some mainEnv _ _ [] _ _).2 (updateOnNewBlock_idle (p := soloBlock 0) (by decide)
      (by decide) (soloBlock_ops (by decide) (by decide)) (now (soloBlock 0)) ∅ (empty mainEnv))
  | n + 1, hn => by
    rw [replay_soloChain_bind now rfl, replay_fresh now n (by omega), Option.bind_some,
      connectBlock_soloBlock (by omega) (by omega) (by omega)]
    rfl

/-- The staker that the purchase creates: qualified and not yet enabled. -/
def soloStaker : QPStaker :=
  { QPStaker.ofDetails soloPurchase soloKey with sAlias := [108, 111, 110, 101] }

def soloStart (now : CBlockIndex → Int) : Option QPRegistry :=
  (connectBlock mainEnv (now (soloBlock 3657600)) (soloBlock 3657600) [soloBlock 3657599]
    (fresh 3657599)).bind
      (connectBlock mainEnv (now (soloBlock 3657601)) (soloBlock 3657601) [soloBlock 3657600])

theorem setBlock_setBlock (r : QPRegistry) (b b' : CBlockIndex) :
    (r.setBlock b).setBlock b' = r.setBlock b' := rfl

/-- Between the enabling block and qPoS the registry only moves to the next height. -/
theorem replay_soloStart (now : CBlockIndex → Int) (h : 3657602 ≤ n) (hn : n < 3695100) :
    replay mainEnv now (soloChain n) = (soloStart now).map (·.setBlock (soloBlock n)) := by
  induction h with
  | refl =>
    have hstart : replay mainEnv now (soloChain 3657601) = soloStart now := by
      rw [replay_soloChain_bind now (show 3657601 = 3657600 + 1 by decide),
        replay_soloChain_bind now (show 3657600 = 3657599 + 1 by decide),
        replay_fresh now 3657599 (by decide), Option.bind_some, soloStart]
    rw [replay_soloChain_bind now (show 3657602 = 3657601 + 1 by decide), hstart,
      Option.map_eq_bind]
    refine congrArg (Option.bind _) (funext fun r => ?_)
    exact connectBlock_soloBlock (by decide) (by decide) (by decide) _ r
  | @step n h ih =>
    have hle : 3657602 ≤ n := h
    rw [replay_soloChain_bind now rfl, ih (by omega), Option.bind_map, Option.map_eq_bind]
    refine congrArg (Option.bind _) (funext fun r => ?_)
    rw [Function.comp_apply, connectBlock_soloBlock hn (by omega) (by omega), setBlock_setBlock, Function.comp_apply]

def soloQpos (now : CBlockIndex → Int) : Option QPRegistry :=
  ((soloStart now).map (·.setBlock (soloBlock 3695099))).bind
    (connectBlock mainEnv (now (soloBlock 3695100)) (soloBlock 3695100) [soloBlock 3695099])

theorem replay_soloQpos (now : CBlockIndex → Int) :
    replay mainEnv now (soloChain 3695100) = soloQpos now := by
  rw [replay_soloChain_bind now (show 3695100 = 3695099 + 1 by decide),
    replay_soloStart now (by decide) (by decide), soloQpos]

theorem exists_replay_soloQpos {P : QPRegistry → Prop} (h : ∃ r ∈ soloQpos blockClock, P r) :
    ∃ r, replay mainEnv blockClock (soloChain 3695100) = some r ∧ P r := by
  rw [replay_soloQpos]
  exact h

theorem replay_cons_soloQpos (now : CBlockIndex → Int) (b : CBlockIndex) :
    replay mainEnv now (b :: soloChain 3695100) =
      (soloQpos now).bind (connectBlock mainEnv (now b) b [soloBlock 3695100]) := by
  obtain ⟨rest, hrest⟩ := soloChain_head 3695100
  rw [replay, replay_soloQpos, hrest, connectBlock_cons _ _ _ _ rest]

theorem replay_soloQpos_filled : ∃ r, replay mainEnv blockClock (soloChain 3695100) = some r ∧
    Filled (soloBlock 3695100).nTime 3695100 r := by
  obtain ⟨r, hr, ⟨s, -, hs, hqual, hen, hmiss, hprev, hdock, hprod⟩, hfilled⟩ :
      ∃ r, replay mainEnv blockClock (soloChain 3695100) = some r ∧ (∃ s ∈ r.mapStakers[1]?, r.mapStakers = only s ∧
        s.fQualified = true ∧ s.nHeightDisabled = 0 ∧ s.nBlocksMissed = 0 ∧ s.nPrevBlocksMissed = 0 ∧
          s.nBlocksDocked = 0 ∧ s.nBlocksProduced = 1) ∧ r.nIDCounter = 1 ∧ r.queue.vStakerIDs = [1] ∧
        r.queue.nCurrentSlot = 0 ∧ r.queue.getCurrentSlotEnd = (soloBlock 3695100).nTime ∧
        r.fCurrentBlockWasProduced = true ∧ r.fPrevBlockWasProduced = true ∧ r.nBlockHeight = 3695100 :=
    exists_replay_soloQpos (by decide +kernel)
  obtain ⟨hcount, hids, hslot, hend, hproduced, hpp, hheight⟩ := hfilled
  have hflaw : Flawless s 3695100 := ⟨hqual, hen, hmiss, hprev, hdock, by rw [hprod]; decide⟩
  exact ⟨r, hr, ⟨s, hs, hflaw⟩, hcount, hids, hslot, hend, hproduced, hpp, hheight⟩

theorem replay_filled : ∀ k : Nat, 3695100 + k < 10000000 →
    ∃ r, replay mainEnv blockClock (soloChain (3695100 + k)) = some r ∧
      Filled (soloBlock (3695100 + k)).nTime (3695100 + k : Nat) r
  | 0, _ => replay_soloQpos_filled
  | k + 1, hk => by
    obtain ⟨r, hr, hfill⟩ := replay_filled k (by omega)
    obtain ⟨r', hb, hfill'⟩ := hfill.updateOnNewBlock
      (b := soloBlock (3695100 + k + 1)) (by omega)
      (by simp only [soloBlock]; rw [if_neg (by omega)]) (soloBlock_ops (by omega) (by omega)) rfl
      (by simp [soloBlock]) ((qpos_le_iff _).2 (by simp only [soloBlock]; omega))
      (soloBlock_nTime_succ _) (soloBlock_nTime_lt (by omega)) (blockClock (soloBlock (3695100 + k + 1))) false ∅
    exact ⟨r', replay_soloChain_succ blockClock (3695100 + k) hr hb, hfill'⟩

end Stealth.QPRegistry

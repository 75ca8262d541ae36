import Stealth.Qpos.Renewal

/-!
The passage of time over the slots: windows follow each other without a gap, and each costs its staker at
most one miss.
-/

namespace Stealth

open Loop

variable {r : QPRegistry} {env : QPEnv} {p : CBlockIndex} {x y : QPRegistry × Nat}

theorem or_and_of_and_eq_zero (a : UInt8) {b c : UInt8} (h : b &&& c = 0) : (a ||| b) &&& c = a &&& c := by
  have hsplit : (a ||| b) &&& c = (a &&& c) ||| (b &&& c) := by
    apply UInt8.toBitVec_inj.1
    simp only [UInt8.toBitVec_and, UInt8.toBitVec_or]
    exact BitVec.and_or_distrib_right
  rw [hsplit, h, UInt8.or_zero]

theorem bitIsOn_setBit {vch : Bytes} {nBit nSet : Nat} (h : bitIsOn (setBit vch nSet).1 nBit = true) :
    bitIsOn vch nBit = true ∨ nBit = nSet := by
  unfold setBit at h
  cases hch : vch[nSet / 8]? with
  | none =>
    rw [hch] at h
    exact .inl h
  | some ch =>
    rw [hch] at h
    dsimp only at h
    have hlt := (List.getElem?_eq_some_iff.1 hch).1
    by_cases hbyte : nSet / 8 = nBit / 8
    · rw [bitIsOn, ← hbyte, List.getElem?_set_self hlt] at h
      rw [bitIsOn, ← hbyte, hch]
      -- the masks of two bits of one byte have no bit in common
      have hmasks : ∀ a < 8, ∀ b < 8, a ≠ b →
          ((0x80 : UInt8) >>> UInt8.ofNat a) &&& ((0x80 : UInt8) >>> UInt8.ofNat b) = 0 := by
        decide
      by_cases hbit : nSet % 8 = nBit % 8
      · exact .inr (by omega)
      · left
        have hmask := hmasks _ (Nat.mod_lt nSet (by decide)) _ (Nat.mod_lt nBit (by decide)) hbit
        simpa only [or_and_of_and_eq_zero ch hmask] using h
    · rw [bitIsOn, List.getElem?_set_ne hbyte] at h
      exact .inl h

theorem bitIsOn_replicate_zero (n nBit : Nat) : bitIsOn (List.replicate n 0) nBit = false := by
  unfold bitIsOn
  split
  · rfl
  · next ch hch =>
    rw [List.getElem?_replicate] at hch
    split at hch
    · cases hch
      simp
    · cases hch

namespace QPRegistry

def IsMarked (q : QPQueue) (nSlot : Nat) : Prop :=
  bitIsOn q.vchBlockStats (nSlot + q.vchBlockStats.length * 8 - q.vStakerIDs.length) = true

/-- There are marks for all slots, and from the current slot on only the slot in which a block was
produced is marked. -/
structure Marks (r : QPRegistry) : Prop where
  room : r.queue.vStakerIDs.length ≤ r.queue.vchBlockStats.length * 8
  upcoming : ∀ nSlot, r.queue.nCurrentSlot ≤ nSlot → IsMarked r.queue nSlot →
    nSlot = r.queue.nCurrentSlot ∧ r.fCurrentBlockWasProduced = true

theorem Marks.of_eq {r' : QPRegistry} (h : Marks r) (hqueue : r'.queue = r.queue)
    (hproduced : r'.fCurrentBlockWasProduced = r.fCurrentBlockWasProduced) : Marks r' :=
  ⟨hqueue ▸ h.room, hqueue ▸ hproduced ▸ h.upcoming⟩

theorem marks_empty (env : QPEnv) : Marks (empty env) :=
  ⟨Nat.le_refl 0, fun nSlot _ h => by simp [IsMarked, empty, QPQueue.null, bitIsOn] at h⟩

theorem marks_newQueue {r' : QPRegistry} {nTime0 : UInt32} {prevHash : Uint256}
    (h : r.newQueue env nTime0 prevHash = some r') (f : Bool) : Marks (r'.setProduced f) := by
  rw [newQueue] at h
  split at h
  · cases h
  · cases h
    refine ⟨?_, fun nSlot _ hmark => ?_⟩
    · simp only [setProduced, QPQueue.start, List.length_replicate]
      split <;> omega
    · have hoff := bitIsOn_replicate_zero
      rw [IsMarked] at hmark
      exact absurd (hmark.symm.trans (hoff _ _)) (by decide)

theorem Marks.incrementSlot (h : Marks r) {q : QPQueue}
    (hq : r.queue.incrementSlot = some q) : Marks ((r.setQueue q).setProduced false) := by
  obtain ⟨-, rfl⟩ := incrementSlot_eq_some hq
  refine ⟨h.room, fun nSlot hle hmark => ?_⟩
  have hslot := (h.upcoming nSlot (Nat.le_of_succ_le hle) hmark).1
  have hnext : r.queue.nCurrentSlot + 1 ≤ nSlot := hle
  omega

theorem Marks.passSlot (h : Marks r) (env : QPEnv) (p : CBlockIndex) (n : Nat) : Marks (r.passSlot env p n) :=
  h.of_eq (passSlot_queue env p n r) (passSlot_produced env p n r)

theorem Marks.advanceSlot (h : Marks x.1) (hstep : advanceSlot env p x = .ok y) : Marks y.1 := by
  rcases advanceSlot_ok hstep with ⟨q, hq, rfl⟩ | ⟨r, -, hr, rfl⟩
  · exact ((h.passSlot env p x.2).incrementSlot hq).of_eq (checkPower_queue env _)
      (checkPower_produced env _)
  · exact (marks_newQueue hr false).of_eq (checkPower_queue env _) (checkPower_produced env _)

theorem Marks.advanceTime (h : Marks r) (nTime : UInt32)
    (p : CBlockIndex) : Marks (r.advanceTime env nTime p).1 := by
  refine advanceTime_rule h (fun r' hnew => marks_newQueue hnew r'.fCurrentBlockWasProduced)
    (fun _ _ hx hstep => hx.advanceSlot hstep) fun x _ hx hstep => ?_
  rw [(advanceSlot_error hstep).2.2]
  exact (hx.passSlot env p x.2).of_eq rfl rfl

theorem Marks.slotProduced (h : Marks r) (hproduced : r.fCurrentBlockWasProduced = true) :
    Marks (r.setQueue (r.queue.slotProduced r.queue.nCurrentSlot).1) := by
  have hlen : (r.queue.slotProduced r.queue.nCurrentSlot).1.vchBlockStats.length =
      r.queue.vchBlockStats.length := by
    simp only [QPQueue.slotProduced, setBit]
    split <;> simp
  refine ⟨?_, fun nSlot hle hmark => ?_⟩
  · rw [setQueue, hlen]
    exact h.room
  · rw [setQueue, IsMarked, hlen] at hmark
    refine ⟨?_, hproduced⟩
    rcases bitIsOn_setBit hmark with hold | hnew
    · exact (h.upcoming nSlot hle hold).1
    · have hroom := h.room
      rw [show (r.queue.slotProduced r.queue.nCurrentSlot).1.vStakerIDs = r.queue.vStakerIDs from rfl]
        at hnew
      change nSlot = r.queue.nCurrentSlot
      omega

theorem Marks.produceBlock (env : QPEnv) (h : Marks r) (p b : CBlockIndex) :
    Either Marks (r.produceBlock env p b) := by
  refine produceBlock_rule h (fun r₁ _ hr₁ => ?_) fun _ h => h.of_eq rfl rfl
  obtain ⟨s, s', -, -, hprod⟩ := stakerProducedBlock_spec hr₁
  -- the flag is set before the mark
  have hflag : Marks r₁ := by
    refine ⟨hprod.queue ▸ h.room, fun nSlot hle hmark => ?_⟩
    rw [hprod.queue] at hle hmark ⊢
    exact ⟨(h.upcoming nSlot hle hmark).1, hprod.produced⟩
  have hmarked := hflag.slotProduced hprod.produced
  rw [hprod.queue] at hmarked ⊢
  exact hmarked

theorem Marks.finishBlock (h : Marks r) (now : Int) (fJustCheck : Bool)
    (p b : CBlockIndex) : Marks (r.finishBlock env now fJustCheck p b).1 :=
  finishBlock_rule (fun _ hops => h.of_eq hops.opsFrame.queue hops.opsFrame.produced)
    (fun _ hr' => Marks.produceBlock env hr' p b) fun _ hr' => hr'.of_eq rfl rfl

theorem Marks.crossFork (h : Marks r) (nFork : Fork) : Marks (r.crossFork env nFork) := by
  obtain ⟨f, heq, -⟩ := crossFork_eq env nFork r
  rw [heq]
  exact h.of_eq rfl rfl

theorem Reachable.marks (h : Reachable env r) : Marks r := by
  refine h.invariant (marks_empty env) (fun hm hsame => ?_) (fun nFork hm => hm.crossFork nFork)
    (fun nTime p hm => hm.advanceTime nTime p)
    (fun now fJustCheck p b hm => hm.finishBlock now fJustCheck p b)
  obtain ⟨m, s, rfl⟩ := hsame.exists_withMode
  exact hm.of_eq rfl rfl

theorem Marks.status_current (h : Marks r) {n : Nat} (hOn : OnSlot (r, n))
    (hproduced : r.fCurrentBlockWasProduced = false) :
    r.queue.getStatusForSlot r.queue.nCurrentSlot = .current := by
  have hunmarked : ¬ IsMarked r.queue r.queue.nCurrentSlot := by
    intro hmark
    have hflag := (h.upcoming _ (Nat.le_refl _) hmark).2
    rw [hproduced] at hflag
    cases hflag
  rw [IsMarked] at hunmarked
  rw [QPQueue.getStatusForSlot, if_neg (Nat.not_le.2 hOn), if_neg (Nat.lt_irrefl _), if_neg hunmarked,
    if_pos rfl]

/-- A passed slot costs nothing, or one miss of its staker if the queue has no block for it. -/
def CostsAtMostOneMiss (r r' : QPRegistry) : Prop :=
  (r'.mapStakers = r.mapStakers ∧ r'.bRecentBlocks = r.bRecentBlocks) ∨
    (r.queue.getStatusForSlot r.queue.nCurrentSlot = .current ∧
      ∃ s s', r.mapStakers[r.queue.getCurrentID]? = some s ∧
        r'.mapStakers = r.mapStakers.insert r.queue.getCurrentID s' ∧
        s'.nBlocksMissed = s.nBlocksMissed + 1 ∧
        r'.bRecentBlocks = shiftIn r.bRecentBlocks false)

theorem costsAtMostOneMiss_passSlot (env : QPEnv) (p : CBlockIndex)
    (hmarks : Marks x.1) (hOn : OnSlot x) : CostsAtMostOneMiss x.1 (x.1.passSlot env p x.2) := by
  rw [passSlot]
  split
  · exact .inl ⟨rfl, rfl⟩
  · next hproduced =>
    split
    · rcases stakerMissedBlock_cases env x.1 x.1.queue.getCurrentID p.nHeight with
        ⟨-, heq⟩ | ⟨s, s', hs, -, heq, hmissed, -⟩
      · rw [heq]
        exact .inl ⟨rfl, rfl⟩
      · refine .inr ⟨hmarks.status_current hOn (Bool.eq_false_iff.2 hproduced), s, s', ?_⟩
        rw [heq]
        exact ⟨(getStakerInternal_eq_some.1 hs).2, rfl, hmissed.missed, rfl⟩
    · exact .inl ⟨rfl, rfl⟩

theorem advanceSlot_bRecentBlocks
    (h : advanceSlot env p x = .ok y) : y.1.bRecentBlocks = (x.1.passSlot env p x.2).bRecentBlocks := by
  obtain ⟨q, hq⟩ := advanceSlot_renewed h
  rw [hq]
  rfl

/-- The loop passes a slot: its window is over, the next one starts in the second after it, and it costs
at most one miss. -/
structure Passes (env : QPEnv) (nTime : UInt32) (pindex : CBlockIndex) (x y : QPRegistry × Nat) :
    Prop where
  passed : slotHasPassed nTime x = true
  advances : advanceSlot env pindex x = .ok y
  length : x.1.queue.getCurrentSlotEnd.toNat =
    x.1.queue.getCurrentSlotStart.toNat + (QP_TARGET_SPACING.toNat - 1)
  next : y.1.queue.getCurrentSlotStart.toNat = x.1.queue.getCurrentSlotEnd.toNat + 1
  costs : CostsAtMostOneMiss x.1 y.1

theorem getCurrentSlotEnd_eq (q : QPQueue) : q.getCurrentSlotEnd = q.getCurrentSlotStart + 4 := by
  rw [QPQueue.getCurrentSlotEnd, QPQueue.getCurrentSlotStart, QP_TARGET_SPACING]
  grind

theorem toNat_getCurrentSlotEnd {q : QPQueue} (h : q.getCurrentSlotStart.toNat + 4 < 2 ^ 32) :
    q.getCurrentSlotEnd.toNat = q.getCurrentSlotStart.toNat + 4 := by
  rw [getCurrentSlotEnd_eq, UInt32.toNat_add, UInt32.toNat_ofNat, Nat.mod_eq_of_lt (by simpa using h)]

theorem getCurrentSlotStart_advanceSlot (hOn : OnSlot x) (h : advanceSlot env p x = .ok y) :
    y.1.queue.getCurrentSlotStart = x.1.queue.getCurrentSlotEnd + 1 := by
  have hclock := (advanceSlot_clock hOn h).2
  rw [getCurrentSlotEnd_eq y.1.queue, QP_TARGET_SPACING] at hclock
  grind

theorem passes_of_lt {nTime : UInt32}
    (hmarks : Marks x.1) (hOn : OnSlot x) (hpassed : slotHasPassed nTime x = true)
    (h : advanceSlot env p x = .ok y) (hfit : x.1.queue.getCurrentSlotStart.toNat + 5 < 2 ^ 32) :
    Passes env nTime p x y := by
  have hend := toNat_getCurrentSlotEnd (q := x.1.queue) (by omega)
  refine ⟨hpassed, h, hend, ?_, ?_⟩
  · rw [getCurrentSlotStart_advanceSlot hOn h, UInt32.toNat_add, UInt32.toNat_one,
      Nat.mod_eq_of_lt (by omega)]
  · have hcost := costsAtMostOneMiss_passSlot env p hmarks hOn
    rw [CostsAtMostOneMiss, ← advanceSlot_mapStakers h, ← advanceSlot_bRecentBlocks h] at hcost
    exact hcost

theorem whileLoop_passes {nTime : UInt32} :
    ∀ (k fuel : Nat) {x : QPRegistry × Nat}, k < fuel → Marks x.1 → OnSlot x → x.1.enabledIDs ≠ [] →
      x.1.queue.getCurrentSlotStart.toNat + 5 * k ≤ nTime.toNat →
      nTime.toNat < x.1.queue.getCurrentSlotStart.toNat + 5 * k + 5 →
      x.1.queue.getCurrentSlotStart.toNat + 5 * k + 4 < 2 ^ 32 →
      ∃ y, whileLoop (slotHasPassed nTime) (advanceSlot env p) fuel x = .ok y ∧
        y.1.queue.timeIsInCurrentSlotWindow nTime = true ∧
        Relation.ReflTransGen (Passes env nTime p) x y
  | 0, fuel, x, _, _, _, _, hle, hlt, hfit => by
    have hend := toNat_getCurrentSlotEnd (q := x.1.queue) (by omega)
    have hnot : slotHasPassed nTime x = false := by
      rw [slotHasPassed, decide_eq_false_iff_not, UInt32.lt_iff_toNat_lt]
      omega
    refine ⟨x, whileLoop_of_not hnot fuel, ?_, .refl⟩
    rw [QPQueue.timeIsInCurrentSlotWindow, Bool.and_eq_true, decide_eq_true_eq, decide_eq_true_eq,
      UInt32.le_iff_toNat_le, UInt32.le_iff_toNat_le]
    omega
  | k + 1, fuel, x, hfuel, hmarks, hOn, hen, hle, hlt, hfit => by
    have hend := toNat_getCurrentSlotEnd (q := x.1.queue) (by omega)
    have hpassed : slotHasPassed nTime x = true := by
      rw [slotHasPassed, decide_eq_true_eq, UInt32.lt_iff_toNat_lt]
      omega
    obtain ⟨y, hy, hyen⟩ := advanceSlot_total env p hen
    have hroom : x.1.queue.getCurrentSlotStart.toNat + 5 < 2 ^ 32 := by omega
    have hpass := passes_of_lt (p := p) hmarks hOn hpassed hy hroom
    have hstart := hpass.next
    obtain ⟨fuel, rfl⟩ := Nat.exists_eq_add_of_lt (Nat.zero_lt_of_lt hfuel)
    obtain ⟨z, hz, hwindow, hsteps⟩ := @whileLoop_passes nTime k fuel y (by omega)
      (hmarks.advanceSlot hy) (advanceSlot_clock hOn hy).1 hyen (by omega) (by omega) (by omega)
    rw [Nat.zero_add, whileLoop_step hpassed hy]
    exact ⟨z, hz, hwindow, hsteps.head hpass⟩

/-- From a slot that has begun, with three enabled stakers and no clock overflow, the loop ends on the
slot of the given time after passing one window after the other. -/
theorem advanceLoop_passes {env : QPEnv} {r : QPRegistry} {nTime : UInt32} (hr : Reachable env r)
    (hqueue : r.queue.isEmpty = false) (hthree : 3 ≤ r.getNumberEnabledInternal)
    (hbegun : r.queue.getCurrentSlotStart ≤ nTime) (hfit : let start := r.queue.getCurrentSlotStart.toNat
      start + 5 * ((nTime.toNat - start) / 5) + 4 < 2 ^ 32) (pindex : CBlockIndex) :
    ∃ y, advanceLoop env nTime pindex (r, 0) = .ok y ∧
      y.1.queue.timeIsInCurrentSlotWindow nTime = true ∧
      Relation.ReflTransGen (Passes env nTime pindex) (r, 0) y := by
  rw [UInt32.le_iff_toNat_le] at hbegun
  dsimp only at hfit
  have hOn : OnSlot (r, 0) := hr.queueInv.slot (by simpa [QPQueue.isEmpty] using hqueue)
  have hen : r.enabledIDs ≠ [] := by
    rw [getNumberEnabled_eq] at hthree
    exact List.length_pos_iff.1 (by omega)
  have hdiv := Nat.div_add_mod (nTime.toNat - r.queue.getCurrentSlotStart.toNat) 5
  have hmod := Nat.mod_lt (nTime.toNat - r.queue.getCurrentSlotStart.toNat) (show 0 < 5 by decide)
  have htime := nTime.toNat_lt
  refine whileLoop_passes ((nTime.toNat - r.queue.getCurrentSlotStart.toNat) / 5) advanceFuel
    (x := (r, 0)) ?_ hr.marks hOn hen ?_ ?_ hfit
  · rw [advanceFuel]
    omega
  · dsimp only
    omega
  · dsimp only
    omega

/-- Six slots without a block, over a renewal of a queue of three. -/
theorem advanceLoop_passes_trio : ∃ r y, runUpdates mainEnv (empty mainEnv) trioRun = some r ∧
      advanceLoop mainEnv (soloBlock 3776764).nTime (soloBlock 3776758) (r, 0) = .ok y ∧
      y.1.queue.timeIsInCurrentSlotWindow (soloBlock 3776764).nTime = true ∧
      Relation.ReflTransGen (Passes mainEnv (soloBlock 3776764).nTime (soloBlock 3776758)) (r, 0) y := by
  have hrun : ∃ r ∈ runUpdates mainEnv (empty mainEnv) trioRun, r.queue.isEmpty = false ∧
      3 ≤ r.getNumberEnabledInternal ∧ r.queue.getCurrentSlotStart = (soloBlock 3776757).nTime + 1 := by
    decide +kernel
  obtain ⟨r, hr, hqueue, hthree, hstart⟩ := hrun
  obtain ⟨y, hy⟩ := @advanceLoop_passes mainEnv r (soloBlock 3776764).nTime
    (Reachable.runUpdates .empty hr) hqueue hthree (by rw [hstart]; decide) (by rw [hstart]; decide)
    (soloBlock 3776758)
  exact ⟨r, y, hr, hy⟩

end QPRegistry

end Stealth

import Stealth.Qpos.Solo

/-! Nodes that advanced the registry before a block arrived and nodes that replay blocks: when they agree. -/

namespace Stealth.QPRegistry

/-- Past `XST_FORKMISSFIX2`, an advance to an earlier time before a block update changes neither the
state nor the verdict exactly when the split is safe. -/
theorem updateOnNewBlock_after_updateOnNewTime_iff {env : QPEnv} {r : QPRegistry}
    (hr : Reachable env r) (hheight : Fork.missFix2 ≤ getFork env.fTestNet r.nBlockHeight)
    (now : Int) (nSnapshotType : SnapshotType) (fJustCheck : Bool) (pindexPrev pindex : CBlockIndex)
    (db : SnapshotDB) {t₁ : UInt32} (ht : t₁ ≤ pindex.nTime) : (SameState
        ((r.updateOnNewTime env t₁ pindexPrev).1.updateOnNewBlock env now nSnapshotType fJustCheck
          pindexPrev pindex db).2.1
        (r.updateOnNewBlock env now nSnapshotType fJustCheck pindexPrev pindex db).2.1 ∧
      ((r.updateOnNewTime env t₁ pindexPrev).1.updateOnNewBlock env now nSnapshotType fJustCheck
          pindexPrev pindex db).2.2 =
        (r.updateOnNewBlock env now nSnapshotType fJustCheck pindexPrev pindex db).2.2) ↔
      SplitSafe env pindexPrev t₁ pindex.nTime r := by
  constructor
  · intro h
    by_contra hsafe
    exact updateOnNewBlock_not_sameState hr.queueInv hheight ht hsafe now nSnapshotType fJustCheck db
      h.1
  · exact fun hsafe =>
      updateOnNewBlock_sameState hr.queueInv hheight ht hsafe now nSnapshotType fJustCheck db

theorem replay_solo_feeless2 : ∃ r, replay mainEnv blockClock (soloChain 5798888) = some r ∧
    Filled (soloBlock 5798888).nTime 5798888 r :=
  replay_filled 2103788 (by decide)

theorem updateOnNewBlock_after_updateOnNewTime_iff_solo :
    ∃ r, replay mainEnv blockClock (soloChain 5798888) = some r ∧
      ((SameState
          ((r.updateOnNewTime mainEnv (soloBlock 5798888).nTime (soloBlock 5798888)).1.updateOnNewBlock
            mainEnv 0 .noSnaps false (soloBlock 5798888) (soloBlock 5798889) ∅).2.1
          (r.updateOnNewBlock mainEnv 0 .noSnaps false (soloBlock 5798888) (soloBlock 5798889)
            ∅).2.1 ∧
        ((r.updateOnNewTime mainEnv (soloBlock 5798888).nTime (soloBlock 5798888)).1.updateOnNewBlock
            mainEnv 0 .noSnaps false (soloBlock 5798888) (soloBlock 5798889) ∅).2.2 =
          (r.updateOnNewBlock mainEnv 0 .noSnaps false (soloBlock 5798888) (soloBlock 5798889)
            ∅).2.2) ↔
        SplitSafe mainEnv (soloBlock 5798888) (soloBlock 5798888).nTime (soloBlock 5798889).nTime r) := by
  obtain ⟨r, hr, hfill⟩ := replay_solo_feeless2
  refine ⟨r, hr, updateOnNewBlock_after_updateOnNewTime_iff (.replay hr) ?_ _ _ _ _ _ _ (by decide)⟩
  rw [hfill.height]
  decide

def lateBlock : CBlockIndex :=
  { soloBlock 5798889 with nTime := (soloBlock 5798888).nTime + 3 * QP_TARGET_SPACING }

/-- A node that advanced by one second before the late block counts the second of the two empty slots
as a miss; a node that only replays blocks does not. -/
theorem updateOnNewTime_changes_misses :
    ∃ r, replay mainEnv blockClock (soloChain 5798888) = some r ∧ Linked (soloChain 5798888) ∧
      Fork.missFix2 ≤ getFork mainEnv.fTestNet r.nBlockHeight ∧
      ¬ SameState
        ((r.updateOnNewTime mainEnv ((soloBlock 5798888).nTime + 1)
          (soloBlock 5798888)).1.updateOnNewBlock mainEnv (blockClock lateBlock) .noSnaps false
            (soloBlock 5798888) lateBlock ∅).2.1
        (r.updateOnNewBlock mainEnv (blockClock lateBlock) .noSnaps false (soloBlock 5798888)
          lateBlock ∅).2.1 := by
  obtain ⟨r, hr, hfill⟩ := replay_solo_feeless2
  have hheight : Fork.missFix2 ≤ getFork mainEnv.fTestNet r.nBlockHeight := by
    rw [hfill.height]
    decide
  refine ⟨r, hr, linked_soloChain _, hheight,
    updateOnNewBlock_not_sameState (Reachable.replay hr).queueInv hheight (by decide) ?_ _ _ _ _⟩
  obtain ⟨s, hs, hflaw⟩ := hfill.staker
  have hleft : r.slotsLeft = 1 := by simp [slotsLeft, hfill.ids, hfill.slot]
  have hfirst : r.slotsTo ((soloBlock 5798888).nTime + 1) = 1 := by
    rw [slotsTo, hfill.slotEnd, slotsPassed_of_lt (by decide), slotsPassed_of_not (by decide)]
  have hsecond : r.slotsTo lateBlock.nTime = 3 := by
    rw [slotsTo, hfill.slotEnd, slotsPassed_of_lt (by decide), slotsPassed_of_lt (by decide),
      slotsPassed_of_lt (by decide), slotsPassed_of_not (by decide)]
  have hen : r.enabledIDs = [1] := enabledIDs_only hs hflaw
  have hafter : r.enabledAfterQueue mainEnv (soloBlock 5798888).nHeight = 1 := by
    simp [enabledAfterQueue, pendingIDs, hfill.produced, hfill.ids, hfill.slot, missAll, hen]
  have hfork : ¬ getFork mainEnv.fTestNet (soloBlock 5798888).nHeight < .feeless2 := by decide
  have hqpos : ¬ getFork mainEnv.fTestNet ((soloBlock 5798888).nHeight + 1) < .qpos := by decide
  simp [SplitSafe, WalkSafe, hleft, hfirst, hsecond, hen, hafter, hfork, hqpos]

end Stealth.QPRegistry

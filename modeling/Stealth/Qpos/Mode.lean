import Stealth.Qpos.Update

/-!
Replay mode and the hash of the last snapshot are bookkeeping: no update reads them, except that a
second block in one slot is refused outside replay mode.
-/

namespace Stealth.QPRegistry

variable {r r' : QPRegistry}

def withMode (r : QPRegistry) (nHeightExitedReplay : Int) (hashBlockLastSnapshot : Uint256) :
    QPRegistry :=
  { r with
    nHeightExitedReplay := nHeightExitedReplay
    hashBlockLastSnapshot := hashBlockLastSnapshot }

/-- Two registries are the same apart from replay mode and snapshot bookkeeping. -/
def SameState (r r' : QPRegistry) : Prop := r.withMode 0 0 = r'.withMode 0 0

instance (r r' : QPRegistry) : Decidable (SameState r r') :=
  inferInstanceAs (Decidable (r.withMode 0 0 = r'.withMode 0 0))

theorem SameState.refl (r : QPRegistry) : SameState r r := rfl

theorem SameState.symm (h : SameState r r') : SameState r' r := Eq.symm h

theorem SameState.trans {r'' : QPRegistry} (h : SameState r r') (h' : SameState r' r'') :
    SameState r r'' := Eq.trans h h'

theorem sameState_withMode (r : QPRegistry) (h : Int) (s : Uint256) : SameState r (r.withMode h s) := rfl

theorem SameState.exists_withMode (h : SameState r r') : ∃ m s, r' = r.withMode m s := by
  refine ⟨r'.nHeightExitedReplay, r'.hashBlockLastSnapshot, ?_⟩
  calc r' = (r'.withMode 0 0).withMode r'.nHeightExitedReplay r'.hashBlockLastSnapshot := rfl
    _ = (r.withMode 0 0).withMode r'.nHeightExitedReplay r'.hashBlockLastSnapshot := by rw [h]
    _ = r.withMode r'.nHeightExitedReplay r'.hashBlockLastSnapshot := rfl

/-- Other values for the fields that are bookkeeping or not persistent; `none` keeps a field. -/
structure Override where
  nHeightExitedReplay : Option Int
  hashBlockLastSnapshot : Option Uint256
  fShouldRollback : Option Bool
  mapCertifiedNodes : Option (Map Nat Bytes)

def override (r : QPRegistry) (o : Override) : QPRegistry :=
  { r with
    nHeightExitedReplay := o.nHeightExitedReplay.getD r.nHeightExitedReplay
    hashBlockLastSnapshot := o.hashBlockLastSnapshot.getD r.hashBlockLastSnapshot
    fShouldRollback := o.fShouldRollback.getD r.fShouldRollback
    mapCertifiedNodes := o.mapCertifiedNodes.getD r.mapCertifiedNodes }

theorem withMode_eq_override (r : QPRegistry) (m : Int) (s : Uint256) :
    r.withMode m s = r.override ⟨some m, some s, none, none⟩ := rfl

section
variable (env : QPEnv) (r : QPRegistry) (o : Override)

@[simp] theorem getStakerInternal_override (nID : Nat) :
    (r.override o).getStakerInternal nID = r.getStakerInternal nID := rfl

@[simp] theorem putStaker_override (nID : Nat) (st : QPStaker) :
    (r.override o).putStaker nID st = (r.putStaker nID st).override o := rfl

@[simp] theorem pushPower_override (nID : Nat) (st : QPStaker) (f : Bool) :
    (r.override o).pushPower nID st f = (r.pushPower nID st f).override o := rfl

@[simp] theorem recordSlot_override (f : Bool) :
    (r.override o).recordSlot f = (r.recordSlot f).override o := rfl

@[simp] theorem setProduced_override (f : Bool) :
    (r.override o).setProduced f = (r.setProduced f).override o := rfl

@[simp] theorem setQueue_override (q : QPQueue) : (r.override o).setQueue q = (r.setQueue q).override o := rfl

@[simp] theorem credit_override (key : CPubKey) (n : Int) :
    (r.override o).credit key n = (r.credit key n).override o := rfl

@[simp] theorem disableStaker_override (nID : Nat) (nHeight : Int) :
    (r.override o).disableStaker nID nHeight = (r.disableStaker nID nHeight).override o := by
  simp only [disableStaker, getStakerInternal_override, putStaker_override]
  split
  · rfl
  · split <;> rfl

@[simp] theorem disableStakerIfNecessary_override (nID : Nat) (st : QPStaker) (nHeight : Int) :
    (r.override o).disableStakerIfNecessary env nID st nHeight =
      (r.disableStakerIfNecessary env nID st nHeight).override o := by
  simp only [disableStakerIfNecessary, disableStaker_override,
    show (r.override o).nBlockHeight = r.nBlockHeight from rfl,
    show (r.override o).getNumberEnabledInternal = r.getNumberEnabledInternal from rfl]
  split
  · rfl
  · split <;> rfl

@[simp] theorem stakerMissedBlock_override (nID : Nat) (nHeight : Int) :
    (r.override o).stakerMissedBlock env nID nHeight =
      (r.stakerMissedBlock env nID nHeight).override o := by
  simp only [stakerMissedBlock, getStakerInternal_override, pushPower_override, putStaker_override,
    disableStakerIfNecessary_override,
    show (r.override o).fPrevBlockWasProduced = r.fPrevBlockWasProduced from rfl]
  split
  · rfl
  · split
    · rfl
    · split <;> rfl

theorem newQueue_override (nTime0 : UInt32) (prevHash : Uint256) :
    (r.override o).newQueue env nTime0 prevHash =
      (r.newQueue env nTime0 prevHash).map fun r' => r'.override o := by
  simp only [newQueue, show (r.override o).enabledIDs = r.enabledIDs from rfl]
  split <;> rfl

@[simp] theorem endRound_override (n : Int) : (r.override o).endRound n = (r.endRound n).override o := rfl

end

theorem sameState_passSlot (env : QPEnv) (pindex : CBlockIndex) {n n' : Nat} (hr : SameState r r')
    (hn : countsMiss (getFork env.fTestNet pindex.nHeight) n =
      countsMiss (getFork env.fTestNet pindex.nHeight) n') :
    SameState (r.passSlot env pindex n) (r'.passSlot env pindex n') := by
  obtain ⟨m, s, rfl⟩ := hr.exists_withMode
  simp only [withMode_eq_override, passSlot, show ∀ o, (r.override o).fCurrentBlockWasProduced =
    r.fCurrentBlockWasProduced from fun _ => rfl, show ∀ o, (r.override o).queue = r.queue
    from fun _ => rfl, stakerMissedBlock_override, hn]
  split
  · rfl
  · split <;> rfl

theorem sameState_checkPower (env : QPEnv) (hr : SameState r r') :
    SameState (r.checkPower env) (r'.checkPower env) := by
  obtain ⟨m, s, rfl⟩ := hr.exists_withMode
  simp only [checkPower, show (r.withMode m s).hasEnoughPower env = r.hasEnoughPower env from rfl]
  split
  · rfl
  · split <;> split <;> rfl

theorem sameState_setProduced (hr : SameState r r') (f : Bool) :
    SameState (r.setProduced f) (r'.setProduced f) := by
  obtain ⟨m, s, rfl⟩ := hr.exists_withMode
  rfl

theorem nextSlot_override (env : QPEnv) (pindex : CBlockIndex) (n n' : Nat) (r : QPRegistry) (o : Override) :
    Loop.ResultRel (fun a b => b = a.override o)
      (fun x y => y.1 = x.1.override o ∧ x.2 + n' = y.2 + n)
      (r.nextSlot env pindex n) ((r.override o).nextSlot env pindex n') := by
  simp only [nextSlot, show (r.override o).queue = r.queue from rfl, setQueue_override,
    endRound_override, newQueue_override]
  cases r.queue.incrementSlot with
  | some q => exact ⟨rfl, Nat.add_comm n n'⟩
  | none =>
    dsimp only
    set r₁ := r.endRound pindex.nMoneySupply
    have hq : (r₁.override o).queue = r₁.queue := rfl
    have hh : (r₁.override o).hashBlock = r₁.hashBlock := rfl
    rw [hq, hh]
    cases r₁.newQueue env (r₁.queue.getMaxTime + 1) r₁.hashBlock with
    | none => exact rfl
    | some r₂ => exact ⟨rfl, by omega⟩

/-- Other values also for the position, which operations read only to enable a staker and, before
`XST_FORKPURCHASE3`, to look a character up. -/
structure Patch extends Override where
  position : Option (Int × Uint256)

def patch (r : QPRegistry) (φ : Patch) : QPRegistry :=
  { r.override φ.toOverride with
    nBlockHeight := (φ.position.map Prod.fst).getD r.nBlockHeight
    hashBlock := (φ.position.map Prod.snd).getD r.hashBlock }

/-- An operation does not see the patch. -/
structure Patch.Unread (φ : Patch) (env : QPEnv) (r : QPRegistry) (deet : QPTxDetails) : Prop where
  fork : getFork env.fTestNet (r.patch φ).nBlockHeight < .purchase3 ↔
    getFork env.fTestNet r.nBlockHeight < .purchase3
  enable : deet.t = .enable → (r.patch φ).nBlockHeight = r.nBlockHeight

def mapResult (f : QPRegistry → QPRegistry) : Except QPRegistry QPRegistry → Except QPRegistry QPRegistry
  | .ok r => .ok (f r)
  | .error r => .error (f r)

section
variable (env : QPEnv) (now : Int) (pindex : CBlockIndex) (r : QPRegistry) (φ : Patch) {deet : QPTxDetails}

theorem deactivatePubKey_patch (key : CPubKey) : (r.patch φ).deactivatePubKey key =
      (r.deactivatePubKey key).map fun r' => r'.patch φ := by
  simp only [deactivatePubKey, show (r.patch φ).mapActive = r.mapActive from rfl]
  split
  · rfl
  · split <;> rfl

theorem setStakerNft_patch (nStakerID nNftID : Nat) : (r.patch φ).setStakerNft env nStakerID nNftID =
      (r.setStakerNft env nStakerID nNftID).map fun r' => r'.patch φ := by
  simp only [setStakerNft, show (r.patch φ).mapStakers = r.mapStakers from rfl,
    show (r.patch φ).mapNftOwners = r.mapNftOwners from rfl,
    show (r.patch φ).mapNftOwnerLookup = r.mapNftOwnerLookup from rfl]
  (repeat' split) <;> rfl

theorem setAliasAt_patch (nID : Nat) (sAlias : Bytes) : (r.patch φ).setAliasAt nID sAlias =
      (r.setAliasAt nID sAlias).map fun r' => r'.patch φ := by
  simp only [setAliasAt, show (r.patch φ).mapStakers = r.mapStakers from rfl]
  cases r.mapStakers[nID]? with
  | none => rfl
  | some st =>
    dsimp only
    cases st.setAlias sAlias <;> rfl

theorem takeNft_patch (nID nNftID : Nat) (sAlias : Bytes) :
    (r.patch φ).takeNft env nID nNftID sAlias = mapResult (·.patch φ) (r.takeNft env nID nNftID sAlias) := by
  simp only [takeNft, setStakerNft_patch]
  cases r.setStakerNft env nID nNftID with
  | none => rfl
  | some r' =>
    simp only [Option.map_some, setAliasAt_patch]
    cases r'.setAliasAt nID sAlias <;> rfl

theorem assignNft_patch (h : φ.Unread env r deet) (nID : Nat) (sKey : Bytes) :
    (r.patch φ).assignNft env nID deet sKey = mapResult (·.patch φ) (r.assignNft env nID deet sKey) := by
  have hkey : (r.patch φ).nftKeyIfAvailable env deet.id = r.nftKeyIfAvailable env deet.id := by
    simp only [nftKeyIfAvailable, nftIsAvailableInternal, h.fork]
    rfl
  simp only [assignNft, hkey, takeNft_patch,
    show (r.patch φ).nftIDIfAvailable env sKey = r.nftIDIfAvailable env sKey from rfl,
    show (r.patch φ).nextFreeNft env = r.nextFreeNft env from rfl]
  split
  · split
    · rfl
    · split <;> rfl
  · split
    · split <;> rfl
    · split <;> rfl

theorem applyPurchase_patch (hread : φ.Unread env r deet) :
    (r.patch φ).applyPurchase env deet pindex = mapResult (·.patch φ) (r.applyPurchase env deet pindex) := by
  simp only [applyPurchase, show (r.patch φ).nIDCounter = r.nIDCounter from rfl,
    show (r.patch φ).aliasIsAvailableInternal deet.sAlias =
      r.aliasIsAvailableInternal deet.sAlias from rfl]
  cases stakerOfPurchase deet with
  | none => rfl
  | some staker =>
    cases r.aliasIsAvailableInternal deet.sAlias with
    | none => rfl
    | some sKey =>
      have hread' : φ.Unread env
          ({ r with nIDCounter := r.nIDCounter + 1 }.putStaker (r.nIDCounter + 1) staker) deet :=
        ⟨hread.fork, hread.enable⟩
      have h := assignNft_patch env _ φ hread' (r.nIDCounter + 1) sKey
      dsimp only
      generalize ha : ({ r with nIDCounter := r.nIDCounter + 1 }.putStaker (r.nIDCounter + 1)
        staker).assignNft env (r.nIDCounter + 1) deet sKey = a at h ⊢
      have h' : ({ r.patch φ with nIDCounter := r.nIDCounter + 1 }.putStaker
          (r.nIDCounter + 1) staker).assignNft env (r.nIDCounter + 1) deet sKey = mapResult (·.patch φ) a := h
      rw [h']
      cases a with
      | error r' => rfl
      | ok r' =>
        simp only [mapResult]
        split <;> rfl

theorem moveReference_patch (keyOld keyNew : CPubKey) : (r.patch φ).moveReference keyOld keyNew pindex =
      (r.moveReference keyOld keyNew pindex).map fun r' => r'.patch φ := by
  simp only [moveReference, deactivatePubKey_patch]
  split
  · rfl
  · cases r.deactivatePubKey keyOld <;> rfl

theorem moveOwnerReference_patch (keyOld keyNew : CPubKey) :
    (r.patch φ).moveOwnerReference env keyOld keyNew pindex =
      (r.moveOwnerReference env keyOld keyNew pindex).patch φ := by
  simp only [moveOwnerReference, deactivatePubKey_patch]
  cases r.deactivatePubKey keyOld <;> (repeat' split) <;> rfl

theorem applySetKey_patch (deet : QPTxDetails) :
    (r.patch φ).applySetKey env deet pindex = mapResult (·.patch φ) (r.applySetKey env deet pindex) := by
  simp only [applySetKey, show (r.patch φ).mapStakers = r.mapStakers from rfl,
    moveOwnerReference_patch, moveReference_patch]
  cases r.mapStakers[deet.id]? with
  | none => rfl
  | some st =>
    dsimp only
    split
    · rfl
    · split
      · next keyNew _ =>
        split
        · rfl
        · cases r.moveReference st.pubkeyManager keyNew pindex <;> rfl
        · split
          · rfl
          · cases r.moveReference st.pubkeyDelegate keyNew pindex <;> rfl
        · rfl
        · rfl
      · rfl

theorem applySetState_patch (h : φ.Unread env r deet) (nHeight : Int) :
    (r.patch φ).applySetState env deet nHeight =
      mapResult (·.patch φ) (r.applySetState env deet nHeight) := by
  simp only [applySetState, show (r.patch φ).mapStakers = r.mapStakers from rfl]
  cases r.mapStakers[deet.id]? with
  | none => rfl
  | some st =>
    dsimp only
    by_cases ht : deet.t = .enable
    · rw [h.enable ht]
      cases st.enable <;> (repeat' split) <;> rfl
    · simp only [if_neg ht]
      (repeat' split) <;> rfl

theorem applyClaim_patch (deet : QPTxDetails) (nBlockTime : Int) :
    (r.patch φ).applyClaim env now deet nBlockTime =
      mapResult (·.patch φ) (r.applyClaim env now deet nBlockTime) := by
  simp only [applyClaim, show ∀ key, (r.patch φ).canClaimInternal env now key deet.value
    nBlockTime = r.canClaimInternal env now key deet.value nBlockTime from fun _ => rfl]
  (repeat' split) <;> rfl

theorem applySetMeta_patch (deet : QPTxDetails) :
    (r.patch φ).applySetMeta deet = mapResult (·.patch φ) (r.applySetMeta deet) := by
  simp only [applySetMeta, show (r.patch φ).mapStakers = r.mapStakers from rfl]
  (repeat' split) <;> rfl

theorem applyOp_patch (h : φ.Unread env r deet) :
    (r.patch φ).applyOp env now pindex deet = mapResult (·.patch φ) (r.applyOp env now pindex deet) := by
  simp only [applyOp, applyPurchase_patch env pindex r φ h, applySetKey_patch,
    applySetState_patch env r φ h, applyClaim_patch, applySetMeta_patch]
  split <;> rfl

end

theorem applyOps_override (env : QPEnv) (now : Int) (pindex : CBlockIndex) (o : Override) :
    ∀ (vDeets : List QPTxDetails) (r : QPRegistry),
      (r.override o).applyOps env now pindex vDeets =
        match r.applyOps env now pindex vDeets with
        | .ok r' => .ok (r'.override o)
        | .error (n, r') => .error (n, r'.override o)
  | [], _ => rfl
  | deet :: rest, r => by
    have hread : Patch.Unread ⟨o, none⟩ env r deet := ⟨Iff.rfl, fun _ => rfl⟩
    rw [applyOps, applyOps, show r.override o = r.patch ⟨o, none⟩ from rfl,
      applyOp_patch env now pindex r _ hread]
    cases r.applyOp env now pindex deet with
    | error r' => rfl
    | ok r' => exact applyOps_override env now pindex o rest r'

section
variable (env : QPEnv) (now : Int) (fJustCheck : Bool) (pindexPrev pindex : CBlockIndex)
  (r : QPRegistry) (o : Override)

theorem disqualifyStakerIfNecessary_override (nID : Nat) (st : QPStaker) :
    (r.override o).disqualifyStakerIfNecessary env nID st =
      (r.disqualifyStakerIfNecessary env nID st).override o := by
  simp only [disqualifyStakerIfNecessary, getStakerInternal_override, putStaker_override,
    show (r.override o).getPrevRecentBlocksMissedMax nID = r.getPrevRecentBlocksMissedMax nID
      from rfl]
  (repeat' split) <;> rfl

theorem stakerProducedBlock_override (nReward : Int) : (r.override o).stakerProducedBlock env pindex nReward =
      (r.stakerProducedBlock env pindex nReward).map fun r' => r'.override o := by
  simp only [stakerProducedBlock, getStakerInternal_override, pushPower_override,
    putStaker_override, credit_override,
    show (r.override o).fPrevBlockWasProduced = r.fPrevBlockWasProduced from rfl,
    show ∀ q : QPRegistry, (q.override o).nBlockHeight = q.nBlockHeight from fun _ => rfl]
  cases r.getStakerInternal pindex.nStakerID with
  | none => rfl
  | some st =>
    dsimp only
    split
    · rfl
    · simp only [← apply_ite (fun q : QPRegistry => q.override o), credit_override,
        disqualifyStakerIfNecessary_override, recordSlot_override, setProduced_override,
        show ∀ q : QPRegistry, (q.override o).nBlockHeight = q.nBlockHeight from fun _ => rfl,
        Option.map_some]

theorem applyBlockOps_override : (r.override o).applyBlockOps env now fJustCheck pindex =
      match r.applyBlockOps env now fJustCheck pindex with
      | .error e => .error (e.1.override o, e.2)
      | .ok r' => .ok (r'.override o) := by
  simp only [applyBlockOps, applyOps_override]
  split
  · cases r.applyOps env now pindex pindex.vDeets <;> rfl
  · rfl

theorem crossFork_override (nFork : Fork) :
    (r.override o).crossFork env nFork = (r.crossFork env nFork).override o := by
  simp only [crossFork, show (r.override o).nBlockHeight = r.nBlockHeight from rfl]
  (repeat' split) <;> rfl

/-- Producing a block reads replay mode only when the slot already has one, and it renews the list of
certified nodes. -/
theorem produceBlock_override
    (h : r.fCurrentBlockWasProduced = true → (r.override o).outOfReplayMode = r.outOfReplayMode) :
    (r.override o).produceBlock env pindexPrev pindex =
      match r.produceBlock env pindexPrev pindex with
      | .error r' => .error (r'.override o)
      | .ok r' => .ok (r'.override (if Fork.qpos ≤ getFork env.fTestNet pindex.nHeight then
          { o with mapCertifiedNodes := none } else o)) := by
  have hmode : ((r.override o).fCurrentBlockWasProduced && (r.override o).outOfReplayMode) =
      (r.fCurrentBlockWasProduced && r.outOfReplayMode) := by
    cases hp : r.fCurrentBlockWasProduced with
    | false => exact (by rw [show (r.override o).fCurrentBlockWasProduced = false from hp]; rfl)
    | true => rw [show (r.override o).fCurrentBlockWasProduced = true from hp, h hp]
  simp only [produceBlock, hmode, show (r.override o).queue = r.queue from rfl,
    stakerProducedBlock_override]
  split
  · cases r.queue.getSlotForID pindex.nStakerID with
    | none => rfl
    | some nSlot =>
      dsimp only
      split
      · rfl
      · split
        · rfl
        · cases r.stakerProducedBlock env pindex (getQPoSReward pindexPrev) with
          | none => rfl
          | some r' =>
            simp only [Option.map_some, show (r'.override o).queue = r'.queue from rfl]
            split <;> rfl
  · rfl

end

end Stealth.QPRegistry

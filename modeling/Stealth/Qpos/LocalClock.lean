import Stealth.Qpos.Ledger

/-!
The local clock in the block update: only a claim reads it, and two nodes agree if their clocks have passed
the same openings.
-/

namespace Stealth.QPRegistry

/-- The earliest clock at which a claim is allowed. A claim at a positive time opens at that time
unless the last claim was too recent; one at time zero waits for the last claim. -/
def claimOpens (env : QPEnv) (r : QPRegistry) (key : CPubKey) (nValue nClaimTime : Int) : Option Int :=
  match r.mapBalances[key]? with
  | none => none
  | some nBalance =>
    if nValue > nBalance then none
    else
      match r.mapLastClaim[key]? with
      | none => some nClaimTime
      | some nLast =>
        if env.fTestNet then some nClaimTime
        else if nClaimTime ≤ 0 then some (max nClaimTime (nLast + QP_MIN_SECS_PER_CLAIM))
        else if nClaimTime < nLast + QP_MIN_SECS_PER_CLAIM then none
        else some nClaimTime

theorem canClaimInternal_eq (env : QPEnv) (now : Int) (r : QPRegistry) (key : CPubKey)
    (nValue nClaimTime : Int) : r.canClaimInternal env now key nValue nClaimTime =
      (r.claimOpens env key nValue nClaimTime).any fun c => decide (c ≤ now) := by
  rw [Bool.eq_iff_iff, canClaimInternal, claimOpens]
  cases r.mapBalances[key]? with
  | none => simp
  | some nBalance =>
    by_cases hvalue : nValue > nBalance
    · simp [hvalue]
    · cases r.mapLastClaim[key]? with
      | none => simp [hvalue]
      | some nLast =>
        by_cases hnet : env.fTestNet = true
        · simp [hvalue, hnet]
        · by_cases hpos : nClaimTime ≤ 0
          · simp [hvalue, hnet, hpos]
          · by_cases hsoon : nClaimTime < nLast + QP_MIN_SECS_PER_CLAIM
            · simp [hvalue, hnet, hpos, hsoon]
            · simp [hvalue, hnet, hpos, hsoon]

def opOpens (env : QPEnv) (b : CBlockIndex) (r : QPRegistry) (deet : QPTxDetails) : Option Int :=
  match deet.keys with
  | [key] => r.claimOpens env key deet.value b.nTime.toNat
  | _ => none

def payClaim (b : CBlockIndex) (r : QPRegistry) (deet : QPTxDetails) : QPRegistry :=
  match deet.keys with
  | [key] =>
    { r with
      mapLastClaim := r.mapLastClaim.insert key b.nTime.toNat
      mapBalances := r.mapBalances.insert key (r.mapBalances.getD key 0 - deet.value) }
  | _ => r

theorem applyOp_claim (env : QPEnv) (now : Int) {b : CBlockIndex} {r : QPRegistry} {deet : QPTxDetails}
    (ht : deet.t = .claim) : r.applyOp env now b deet =
      if (r.opOpens env b deet).any fun c => decide (c ≤ now) then .ok (r.payClaim b deet)
      else .error r := by
  rcases hkeys : deet.keys with _ | ⟨key, _ | ⟨key', rest⟩⟩
  · simp [applyOp, ht, applyClaim, opOpens, hkeys]
  · simp [applyOp, ht, applyClaim, opOpens, payClaim, hkeys, canClaimInternal_eq]
  · simp [applyOp, ht, applyClaim, opOpens, hkeys]

theorem applyOp_of_ne_claim (env : QPEnv) (now now' : Int) (b : CBlockIndex) (r : QPRegistry)
    {deet : QPTxDetails} (ht : deet.t ≠ .claim) : r.applyOp env now b deet = r.applyOp env now' b deet := by
  rw [applyOp, applyOp]
  split <;> first | rfl | contradiction

/-- The openings of the claims that the operations of a block reach, in their order. -/
def claimClocks (env : QPEnv) (b : CBlockIndex) : QPRegistry → List QPTxDetails → List Int
  | _, [] => []
  | r, deet :: rest =>
    if deet.t = .claim then
      match r.opOpens env b deet with
      | none => []
      | some c => c :: claimClocks env b (r.payClaim b deet) rest
    else
      match r.applyOp env 0 b deet with
      | .error _ => []
      | .ok r' => claimClocks env b r' rest

def appliedClaims (env : QPEnv) (now : Int) (b : CBlockIndex) :
    QPRegistry → List QPTxDetails → List QPTxDetails
  | _, [] => []
  | r, deet :: rest =>
    match r.applyOp env now b deet with
    | .error _ => []
    | .ok r' =>
      if deet.t = .claim then deet :: appliedClaims env now b r' rest
      else appliedClaims env now b r' rest

/-- A clock applies the claims whose openings it has passed, up to the first that it has not. -/
theorem length_appliedClaims (env : QPEnv) (now : Int) (b : CBlockIndex) :
    ∀ (deets : List QPTxDetails) (r : QPRegistry), (appliedClaims env now b r deets).length =
      ((claimClocks env b r deets).takeWhile fun c => decide (c ≤ now)).length
  | [], _ => rfl
  | deet :: rest, r => by
    rw [appliedClaims, claimClocks]
    by_cases ht : deet.t = .claim
    · rw [applyOp_claim env now ht, if_pos ht]
      cases r.opOpens env b deet with
      | none => rfl
      | some c =>
        by_cases hc : c ≤ now
        · simp [hc, ht, length_appliedClaims env now b rest]
        · simp [hc]
    · rw [applyOp_of_ne_claim env now 0 b r ht, if_neg ht]
      cases r.applyOp env 0 b deet with
      | error r' => rfl
      | ok r' => simpa only [if_neg ht] using length_appliedClaims env now b rest r'

theorem applyOps_clock {env : QPEnv} {now now' : Int} {b : CBlockIndex} :
    ∀ (deets : List QPTxDetails) {r : QPRegistry},
      ((claimClocks env b r deets).takeWhile fun c => decide (c ≤ now)) =
        ((claimClocks env b r deets).takeWhile fun c => decide (c ≤ now')) →
      r.applyOps env now b deets = r.applyOps env now' b deets ∧
        appliedClaims env now b r deets = appliedClaims env now' b r deets
  | [], _, _ => ⟨rfl, rfl⟩
  | deet :: rest, r, h => by
    rw [claimClocks] at h
    rw [applyOps, applyOps, appliedClaims, appliedClaims]
    by_cases ht : deet.t = .claim
    · rw [if_pos ht] at h
      rw [applyOp_claim env now ht, applyOp_claim env now' ht]
      cases hopen : r.opOpens env b deet with
      | none => exact ⟨rfl, rfl⟩
      | some c =>
        rw [hopen] at h
        by_cases hc : c ≤ now <;> by_cases hc' : c ≤ now'
        · have ih := applyOps_clock rest (r := r.payClaim b deet)
            (by simpa [hc, hc'] using h)
          simp [hc, hc', ht, ih]
        · simp [hc, hc'] at h
        · simp [hc, hc'] at h
        · simp [hc, hc']
    · rw [if_neg ht] at h
      rw [applyOp_of_ne_claim env now' 0 b r ht, applyOp_of_ne_claim env now 0 b r ht]
      cases hop : r.applyOp env 0 b deet with
      | error r' => exact ⟨rfl, rfl⟩
      | ok r' =>
        rw [hop] at h
        have ih := applyOps_clock rest h
        simp [ht, ih]

section Update

variable (env : QPEnv) (nSnapshotType : SnapshotType) (p b : CBlockIndex) (db : SnapshotDB)
  (r : QPRegistry)

/-- The operations that the update of a block gets to: none if the advance fails, and none before
`XST_FORKPURCHASE`. -/
def reachedOps : List QPTxDetails :=
  if ((r.beforeAdvance env nSnapshotType p b db).advanceTime env b.nTime p).2 = true ∧
      Fork.purchase ≤ getFork env.fTestNet b.nHeight then b.vDeets else []

def blockClocks : List Int :=
  claimClocks env b ((r.beforeAdvance env nSnapshotType p b db).advanceTime env b.nTime p).1
    (reachedOps env nSnapshotType p b db r)

def blockClaims (now : Int) : List QPTxDetails :=
  appliedClaims env now b ((r.beforeAdvance env nSnapshotType p b db).advanceTime env b.nTime p).1
    (reachedOps env nSnapshotType p b db r)

variable {env nSnapshotType p b db r}

theorem updateOnNewBlock_clock {now now' : Int} (fJustCheck : Bool)
    (h : ((r.beforeAdvance env nSnapshotType p b db).advanceTime env b.nTime p).1.applyOps env now b
        (reachedOps env nSnapshotType p b db r) =
      ((r.beforeAdvance env nSnapshotType p b db).advanceTime env b.nTime p).1.applyOps env now' b
        (reachedOps env nSnapshotType p b db r)) :
    (r.updateOnNewBlock env now nSnapshotType fJustCheck p b db).2 =
      (r.updateOnNewBlock env now' nSnapshotType fJustCheck p b db).2 := by
  rw [updateOnNewBlock_snd, updateOnNewBlock_snd]
  rw [reachedOps] at h
  rcases hadv : (r.beforeAdvance env nSnapshotType p b db).advanceTime env b.nTime p with ⟨r₁, _ | _⟩
  · rfl
  · by_cases hfork : Fork.purchase ≤ getFork env.fTestNet b.nHeight
    · rw [hadv, if_pos ⟨rfl, hfork⟩] at h
      simp only [finishBlock, applyBlockOps, if_pos hfork, h]
    · simp only [finishBlock, applyBlockOps, if_neg hfork]

/-- Two nodes give a block the same verdict, the same registry and the same claims exactly if their
clocks have passed the same openings. -/
theorem updateOnNewBlock_clock_iff (now now' : Int) (fJustCheck : Bool) :
    ((r.updateOnNewBlock env now nSnapshotType fJustCheck p b db).2 =
        (r.updateOnNewBlock env now' nSnapshotType fJustCheck p b db).2 ∧
      blockClaims env nSnapshotType p b db r now = blockClaims env nSnapshotType p b db r now') ↔
    ((blockClocks env nSnapshotType p b db r).takeWhile fun c => decide (c ≤ now)) =
      ((blockClocks env nSnapshotType p b db r).takeWhile fun c => decide (c ≤ now')) := by
  constructor
  · rintro ⟨-, hclaims⟩
    have hlength := congrArg List.length hclaims
    rw [blockClaims, blockClaims, length_appliedClaims, length_appliedClaims] at hlength
    rw [blockClocks, List.prefix_iff_eq_take.1 (List.takeWhile_prefix _),
      List.prefix_iff_eq_take.1 (List.takeWhile_prefix fun c => decide (c ≤ now')), hlength]
  · intro hclocks
    obtain ⟨hops, hclaims⟩ := applyOps_clock _ hclocks
    exact ⟨updateOnNewBlock_clock fJustCheck hops, hclaims⟩

end Update

/-- One node accepts a block with a claim, and a node whose clock is a second behind the time of the
block ends its process. -/
theorem updateOnNewBlock_clock_solo : ∃ r, replay mainEnv blockClock (soloChain 3695100) = some r ∧
      (r.updateOnNewBlock mainEnv (soloBlock 3695101).nTime.toNat .noSnaps false (soloBlock 3695100)
        { soloBlock 3695101 with vDeets := [soloClaim] } ∅).2.2 = .accepted ∧
      (r.updateOnNewBlock mainEnv ((soloBlock 3695101).nTime.toNat - 1) .noSnaps false
        (soloBlock 3695100) { soloBlock 3695101 with vDeets := [soloClaim] } ∅).2.2 = .exited :=
  exists_replay_soloQpos (by decide +kernel)

end Stealth.QPRegistry

import Stealth.Lib.Fallible
import Stealth.Qpos.Runs
import Stealth.Qpos.Solo

/-! Which balances the activation of keys touches: those of the keys that nobody named before. -/

namespace Stealth.QPRegistry

open Tally

variable {r r' : QPRegistry} {key keyOld keyNew : CPubKey} {b : CBlockIndex} {env : QPEnv} {deet : QPTxDetails}

def Grounded (r : QPRegistry) : Prop := ∀ key : CPubKey, 0 ≤ r.mapActive.getD key 0

theorem Grounded.of_eq (h : Grounded r) (heq : r'.mapActive = r.mapActive) :
    Grounded r' := fun key => heq ▸ h key

theorem Grounded.of_accounts (h : Grounded r) (heq : r'.accounts = r.accounts) :
    Grounded r' := h.of_eq (congrArg Accounts.active heq)

theorem getD_activatePubKey (r : QPRegistry) (key : CPubKey) (b : CBlockIndex) (k : CPubKey) :
    (r.activatePubKey key b).mapActive.getD k 0 =
      if key = k then r.mapActive.getD k 0 + 1 else r.mapActive.getD k 0 := by
  simp only [activatePubKey, getD_insert, Std.LawfulEqCmp.compare_eq_iff_eq]
  split
  · next heq => rw [heq]
  · rfl

theorem Grounded.activatePubKey (h : Grounded r) (key : CPubKey) (b : CBlockIndex) :
    Grounded (r.activatePubKey key b) := by
  intro k
  have hk := h k
  rw [getD_activatePubKey]
  split <;> omega

theorem Grounded.deactivatePubKey (h : Grounded r) (hd : r.deactivatePubKey key = some r') : Grounded r' := by
  obtain ⟨n, hn, rfl⟩ := deactivatePubKey_some hd
  intro k
  have hk := h k
  simp only [getD_insert]
  split <;> omega

theorem OpStep.grounded (h : OpStep r r') (hr : Grounded r) : Grounded r' := by
  cases h with
  | account h =>
    cases h with
    | activate key b => exact hr.activatePubKey key b
    | deactivate hd => exact hr.deactivatePubKey hd
    | claim claims balances => exact hr
  | names aliases owners lookup => exact hr
  | edit hs h => exact hr
  | add h => exact hr

theorem OpSteps.grounded (h : OpSteps r r') (hr : Grounded r) : Grounded r' :=
  h.rule (R := fun r r' => Grounded r → Grounded r') (fun _ hr => hr)
    (fun _ _ _ h h' hr => h' (h hr)) (fun _ _ => OpStep.grounded) hr

theorem mapActive_produceBlock (env : QPEnv) (p b : CBlockIndex) (r : QPRegistry) :
    Either (fun r' => r'.mapActive = r.mapActive) (r.produceBlock env p b) := by
  refine produceBlock_rule rfl (fun r₁ _ h => ?_) fun _ h => h
  obtain ⟨s, s', balances, -, -, -, rfl⟩ := stakerProducedBlock_cases h
  rfl

theorem Grounded.finishBlock (h : Grounded r) (env : QPEnv) (now : Int)
    (fJustCheck : Bool) (p b : CBlockIndex) : Grounded (r.finishBlock env now fJustCheck p b).1 :=
  finishBlock_rule (fun _ hops => hops.grounded h)
    (fun r' hr' => (mapActive_produceBlock env p b r').imp fun _ heq => hr'.of_eq heq) fun _ hr' => hr'

theorem grounded_endRounds {d : Int} : ∀ {ops : List (AccountOp CPubKey)} {a : Accounts CPubKey},
    (∀ op ∈ ops, op = .endRound d) → (∀ key, 0 ≤ a.activeCount key) →
      ∀ key, 0 ≤ (a.run ops).activeCount key
  | [], _, _, h, key => h key
  | op :: ops, a, hops, h, key => by
    obtain ⟨rfl, hrest⟩ := List.forall_mem_cons.1 hops
    refine grounded_endRounds (a := a.apply (.endRound d)) hrest (fun k => ?_) key
    have hk := h k
    simp only [Accounts.activeCount, Accounts.apply, Accounts.purge, Accounts.dock,
      getD_eq_getD_getElem?, Std.ExtTreeMap.getElem?_filter'] at hk ⊢
    cases hn : a.active[k]? with
    | none => exact Int.le_refl 0
    | some n =>
      rw [hn] at hk
      rw [Option.filter_some]
      split
      · exact hk
      · exact Int.le_refl 0

theorem Grounded.advanceTime (h : Grounded r) (env : QPEnv) (nTime : UInt32)
    (p : CBlockIndex) : Grounded (r.advanceTime env nTime p).1 := by
  have hrun : ∀ key, 0 ≤ (r.accounts.run (advanceLog env nTime p r)).activeCount key :=
    grounded_endRounds (fun _ => mem_advanceLog) h
  rw [← accounts_advanceTime] at hrun
  exact hrun

theorem Reachable.grounded (h : Reachable env r) : Grounded r := by
  refine h.invariant (fun _ => Int.le_refl 0) (fun hg hsame => ?_) (fun nFork hg => ?_)
    (fun nTime p hg => hg.advanceTime env nTime p)
    (fun now fJustCheck p b hg => hg.finishBlock env now fJustCheck p b)
  · obtain ⟨m, s, rfl⟩ := hsame.exists_withMode
    exact hg
  · exact hg.of_accounts (sameIdentity_crossFork env nFork _).accounts

/-- The keys an operation gives a reference to. Owner keys are counted on the test network only, and
there below `XST_FORKMISSFIX`. -/
def activatedKeys (env : QPEnv) (b : CBlockIndex) (r : QPRegistry) (deet : QPTxDetails) :
    List CPubKey :=
  let fOwner := env.fTestNet ∧ getFork env.fTestNet b.nHeight < .missFix
  match deet.t with
  | .purchase1 | .purchase4 =>
    match stakerOfPurchase deet with
    | none => []
    | some s => (if fOwner then [s.pubkeyOwner] else []) ++ [s.pubkeyManager, s.pubkeyDelegate]
  | .setOwner | .setManager | .setDelegate =>
    match r.mapStakers[deet.id]?, deet.keys with
    | some s, [keyNew] =>
      if deet.t = .setManager then if keyNew = s.pubkeyManager then [] else [keyNew]
      else if deet.t = .setDelegate then if keyNew = s.pubkeyDelegate then [] else [keyNew]
      else if keyNew ≠ s.pubkeyOwner ∧ fOwner then [keyNew] else []
    | _, _ => []
  | _ => []

def namesKeys (t : TxnOutType) : Bool :=
  match t with
  | .purchase1 | .purchase4 | .setOwner | .setManager | .setDelegate | .setController => true
  | _ => false

def activateAll (b : CBlockIndex) (keys : List CPubKey) (r : QPRegistry) : QPRegistry :=
  keys.foldl (fun r key => r.activatePubKey key b) r

theorem activateAll_mapBalances : ∀ {keys : List CPubKey} {r : QPRegistry}, 0 ≤ r.mapActive.getD key 0 →
      (r.activateAll b keys).mapBalances[key]? =
        if key ∈ keys ∧ r.mapActive.getD key 0 = 0 then some 0 else r.mapBalances[key]?
  | [], r, _ => by simp [activateAll]
  | k :: keys, r, h => by
    have hcount := getD_activatePubKey r k b key
    have hbalance : (r.activatePubKey k b).mapBalances[key]? =
        if k = key ∧ r.mapActive.getD key 0 = 0 then some 0 else r.mapBalances[key]? := by
      by_cases hk : k = key
      · subst hk
        by_cases hzero : r.mapActive.getD k 0 = 0 <;> simp [activatePubKey, hzero]
      · by_cases hzero : r.mapActive.getD k 0 = 0 <;>
          simp [activatePubKey, hzero, hk, getElem?_insert]
    have hnonneg : 0 ≤ (r.activatePubKey k b).mapActive.getD key 0 := by
      rw [hcount]
      split <;> omega
    change ((r.activatePubKey k b).activateAll b keys).mapBalances[key]? = _
    rw [activateAll_mapBalances hnonneg, hcount, hbalance]
    by_cases hk : k = key
    · subst hk
      have hpos : ¬ r.mapActive.getD k 0 + 1 = 0 := by omega
      simp [hpos]
    · simp [hk, Ne.symm hk]

def balanceAfter (r : QPRegistry) (keys : List CPubKey) (key : CPubKey) : Option Int :=
  if key ∈ keys ∧ r.mapActive.getD key 0 = 0 then some 0 else r.mapBalances[key]?

theorem balanceAfter_nil (r : QPRegistry) (key : CPubKey) :
    r.balanceAfter [] key = r.mapBalances[key]? := if_neg fun h => List.not_mem_nil h.1

theorem activatePubKey_after_deactivate {r₁ : QPRegistry} (hr : Grounded r) (hne : keyNew ≠ keyOld)
    (hd : r₁ = r ∨ r.deactivatePubKey keyOld = some r₁) (key : CPubKey) :
    (r₁.activatePubKey keyNew b).mapBalances[key]? = r.balanceAfter [keyNew] key := by
  have hgrounded : Grounded r₁ := by
    rcases hd with rfl | hd
    · exact hr
    · exact hr.deactivatePubKey hd
  have hbalances : r₁.mapBalances = r.mapBalances := by
    rcases hd with rfl | hd
    · rfl
    · obtain ⟨n, -, rfl⟩ := deactivatePubKey_some hd
      rfl
  have hcount : r₁.mapActive.getD keyNew 0 = r.mapActive.getD keyNew 0 := by
    rcases hd with rfl | hd
    · rfl
    · obtain ⟨n, -, rfl⟩ := deactivatePubKey_some hd
      simp only [getD_insert, Std.LawfulEqCmp.compare_eq_iff_eq, Ne.symm hne, if_false]
  change (r₁.activateAll b [keyNew]).mapBalances[key]? = _
  rw [activateAll_mapBalances (hgrounded key), balanceAfter, hbalances]
  by_cases hkey : key = keyNew
  · rw [hkey, hcount]
  · simp [hkey]

theorem moveReference_mapBalances
    (hr : Grounded r) (h : r.moveReference keyOld keyNew b = some r') (key : CPubKey) :
    r'.mapBalances[key]? = r.balanceAfter (if keyNew = keyOld then [] else [keyNew]) key := by
  rw [moveReference] at h
  split at h
  · next heq =>
    cases h
    rw [if_pos heq, balanceAfter_nil]
  · next hne =>
    obtain ⟨r₁, hr₁, rfl⟩ := Option.map_eq_some_iff.1 h
    rw [if_neg hne]
    exact activatePubKey_after_deactivate hr hne (.inr hr₁) key

theorem moveOwnerReference_mapBalances (hr : Grounded r) (key : CPubKey) :
    (r.moveOwnerReference env keyOld keyNew b).mapBalances[key]? =
      r.balanceAfter (if keyNew ≠ keyOld ∧ env.fTestNet ∧
        getFork env.fTestNet b.nHeight < .missFix then [keyNew] else []) key := by
  have hd : (r.deactivatePubKey keyOld).getD r = r ∨
      r.deactivatePubKey keyOld = some ((r.deactivatePubKey keyOld).getD r) := by
    cases r.deactivatePubKey keyOld with
    | none => exact .inl rfl
    | some r₁ => exact .inr rfl
  have hkeep : ((r.deactivatePubKey keyOld).getD r).mapBalances = r.mapBalances := by
    rcases hd with hd | hd
    · rw [hd]
    · obtain ⟨n, -, h⟩ := deactivatePubKey_some hd
      rw [h]
  rw [moveOwnerReference]
  by_cases hmove : keyNew ≠ keyOld ∧ env.fTestNet
  · rw [if_pos hmove]
    by_cases hfork : getFork env.fTestNet b.nHeight < .missFix
    · rw [if_pos hfork, if_pos ⟨hmove.1, hmove.2, hfork⟩]
      exact activatePubKey_after_deactivate hr hmove.1 hd key
    · rw [if_neg hfork, if_neg fun h => hfork h.2.2, balanceAfter_nil, hkeep]
  · rw [if_neg hmove, if_neg fun h => hmove ⟨h.1, h.2.1⟩, balanceAfter_nil]

theorem applyPurchase_mapBalances (hr : Grounded r) (ht : deet.t = .purchase1 ∨ deet.t = .purchase4)
    (h : r.applyPurchase env deet b = .ok r') (key : CPubKey) :
    r'.mapBalances[key]? = r.balanceAfter (r.activatedKeys env b deet) key := by
  rw [applyPurchase] at h
  split at h
  · cases h
  · next s hs =>
    split at h
    · cases h
    · next sKey _ =>
      dsimp only at h
      split at h
      · cases h
      · next r₁ hnft =>
        have hacc := accounts_assignNft hnft
        have hactive : r₁.mapActive = r.mapActive := congrArg Accounts.active hacc
        have hbalances : r₁.mapBalances = r.mapBalances := congrArg Accounts.balances hacc
        have hkeys : r.activatedKeys env b deet =
            (if env.fTestNet ∧ getFork env.fTestNet b.nHeight < .missFix
              then [s.pubkeyOwner] else []) ++ [s.pubkeyManager, s.pubkeyDelegate] := by
          rcases ht with ht | ht <;> simp only [activatedKeys, ht, hs]
        have hall : (r₁.activateAll b (r.activatedKeys env b deet)).mapBalances[key]? =
            r.balanceAfter (r.activatedKeys env b deet) key := by
          rw [activateAll_mapBalances (hr.of_eq hactive key), hactive, hbalances, balanceAfter]
        rw [← hall, hkeys]
        cases h
        by_cases howner : env.fTestNet ∧ getFork env.fTestNet b.nHeight < .missFix
        · simp only [if_pos howner]
          rfl
        · simp only [if_neg howner]
          rfl

theorem applySetKey_mapBalances (hr : Grounded r) (h : r.applySetKey env deet b = .ok r') (key : CPubKey) :
    r'.mapBalances[key]? = r.balanceAfter (r.activatedKeys env b deet) key := by
  rw [applySetKey] at h
  split at h
  · cases h
  · next s hs =>
    split at h
    · cases h
    · split at h
      · next keyNew hkeys =>
        split at h
        · next ht =>
          cases h
          simp only [activatedKeys, ht, hs, hkeys]
          exact moveOwnerReference_mapBalances hr key
        · next ht =>
          split at h
          · cases h
          · next hm =>
            cases h
            simp only [activatedKeys, ht, hs, hkeys]
            exact moveReference_mapBalances hr hm key
        · next ht =>
          generalize s.setDelegatePayout deet.pcm = pay at h
          dsimp only at h
          split at h
          · cases h
          · split at h
            · cases h
            · next hm =>
              cases h
              simp only [activatedKeys, ht, hs, hkeys]
              exact moveReference_mapBalances hr hm key
        · next ht =>
          cases h
          simp only [activatedKeys, ht]
          rw [balanceAfter_nil]
          rfl
        · cases h
      · cases h

theorem applyOp_mapBalances {now : Int} (hr : Grounded r) (ht : namesKeys deet.t = true)
    (h : r.applyOp env now b deet = .ok r') (key : CPubKey) :
    r'.mapBalances[key]? = r.balanceAfter (r.activatedKeys env b deet) key := by
  rw [applyOp] at h
  split at h
  · next heq => exact applyPurchase_mapBalances hr (.inl heq) h key
  · next heq => exact applyPurchase_mapBalances hr (.inr heq) h key
  · exact applySetKey_mapBalances hr h key
  · exact applySetKey_mapBalances hr h key
  · exact applySetKey_mapBalances hr h key
  · exact applySetKey_mapBalances hr h key
  · next heq => rw [heq] at ht; cases ht
  · next heq => rw [heq] at ht; cases ht
  · next heq => rw [heq] at ht; cases ht
  · next heq => rw [heq] at ht; cases ht
  · cases h

/-- A purchase or key change leaves a balance alone exactly when the key keeps its reference count
above zero, or is not named by the operation, or has nothing to lose. -/
theorem balance_kept_iff {env : QPEnv} {now : Int} {b : CBlockIndex} {r₀ r r' : QPRegistry}
    (hr : Reachable env r₀) {pre : List QPTxDetails} (hpre : r₀.applyOps env now b pre = .ok r)
    {deet : QPTxDetails} (ht : namesKeys deet.t = true) (h : r.applyOp env now b deet = .ok r')
    {key : CPubKey} {n : Int} (hkey : r.mapBalances[key]? = some n) : r'.mapBalances[key]? = some n ↔
      key ∉ r.activatedKeys env b deet ∨ r.mapActive.getD key 0 ≠ 0 ∨ n = 0 := by
  have hgrounded := ((opSteps_applyOps env now b pre r₀).1 r hpre).grounded hr.grounded
  rw [applyOp_mapBalances hgrounded ht h, balanceAfter, hkey]
  by_cases hmem : key ∈ r.activatedKeys env b deet
  · by_cases hzero : r.mapActive.getD key 0 = 0
    · simp [hmem, hzero, eq_comm]
    · simp [hzero]
  · simp [hmem]

def otherKey : CPubKey := 2 :: List.replicate 32 8

/-- The first block after qPoS hands the roles of the only staker to another key. -/
def leaveBlock : CBlockIndex :=
  { soloBlock 3695101 with
    vDeets := [{ t := .setManager, id := 1, keys := [otherKey] },
      { t := .setDelegate, id := 1, keys := [otherKey], pcm := 0 }] }

def returnOp : QPTxDetails := { t := .setManager, id := 1, keys := [soloKey] }

def returnBlock : CBlockIndex := { soloBlock 3695102 with vDeets := [returnOp] }

/-- The registry of the chain up to the roles' change, at the time of the next block. -/
def leftRegistry : Option QPRegistry :=
  (replay mainEnv blockClock (leaveBlock :: soloChain 3695100)).map fun r =>
    (r.updateOnNewTime mainEnv returnBlock.nTime leaveBlock).1

theorem reachable_leftRegistry (h : leftRegistry = some r) : Reachable mainEnv r := by
  obtain ⟨r₀, hr₀, rfl⟩ := Option.map_eq_some_iff.1 h
  exact (Reachable.replay hr₀).time _ _

theorem leftRegistry_spec : ∃ r r', leftRegistry = some r ∧ r.mapBalances[soloKey]? = some 47436 ∧
    r.applyOp mainEnv (blockClock returnBlock) returnBlock returnOp = .ok r' ∧
    r'.mapBalances[soloKey]? = some 0 := by
  have hrun : ∃ r ∈ ((soloQpos blockClock).bind
      (connectBlock mainEnv (blockClock leaveBlock) leaveBlock [soloBlock 3695100])).map fun r =>
        (r.updateOnNewTime mainEnv returnBlock.nTime leaveBlock).1, r.mapBalances[soloKey]? = some 47436 ∧
      ∃ r' ∈ (r.applyOp mainEnv (blockClock returnBlock) returnBlock returnOp).toOption,
        r'.mapBalances[soloKey]? = some 0 := by
    decide +kernel
  rw [← replay_cons_soloQpos] at hrun
  obtain ⟨r, hr, hbalance, r', hr', hlost⟩ := hrun
  exact ⟨r, r', hr, hbalance, Fallible.eq_ok_of_toOption hr', hlost⟩

/-- A key that lost its last role with 47436 unclaimed has nothing when it is manager again. -/
theorem balance_lost_on_return :
    ∃ r r', leftRegistry = some r ∧ Reachable mainEnv r ∧ namesKeys returnOp.t = true ∧
      r.applyOp mainEnv (blockClock returnBlock) returnBlock returnOp = .ok r' ∧
      r.mapBalances[soloKey]? = some 47436 ∧ r'.mapBalances[soloKey]? ≠ some 47436 := by
  obtain ⟨r, r', hr, hbalance, hop, hlost⟩ := leftRegistry_spec
  refine ⟨r, r', hr, reachable_leftRegistry hr, rfl, hop, hbalance, ?_⟩
  rw [hlost]
  decide

theorem balance_kept_iff_return : ∃ r r', leftRegistry = some r ∧
      r.applyOp mainEnv (blockClock returnBlock) returnBlock returnOp = .ok r' ∧
      (r'.mapBalances[soloKey]? = some 47436 ↔
        soloKey ∉ r.activatedKeys mainEnv returnBlock returnOp ∨
          r.mapActive.getD soloKey 0 ≠ 0 ∨ (47436 : Int) = 0) := by
  obtain ⟨r, r', hr, hbalance, hop, -⟩ := leftRegistry_spec
  exact ⟨r, r', hr, hop,
    @balance_kept_iff _ _ _ _ _ _ (reachable_leftRegistry hr) [] rfl _ rfl hop _ _ hbalance⟩

end Stealth.QPRegistry

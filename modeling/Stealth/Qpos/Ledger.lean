import Stealth.Qpos.Runs
import Stealth.Qpos.Solo

/-! The ledger of the main network over every run: reference counts, balances, and the distance of claims. -/

namespace Stealth.QPRegistry

open Tally

variable {p b : CBlockIndex} {env : QPEnv} {r r' : QPRegistry} {now t : Int} {op : AccountOp CPubKey}

theorem booked_empty (env : QPEnv) : (empty env).accounts.Booked :=
  ⟨fun _ => iff_of_false Std.ExtTreeMap.not_mem_empty Std.ExtTreeMap.not_mem_empty,
    fun _ h => absurd h Std.ExtTreeMap.not_mem_empty⟩

theorem counted_empty (env : QPEnv) : (empty env).accounts.Counted := fun _ => rfl

def soloClaim : QPTxDetails := { t := .claim, keys := [soloKey], value := 1000 }

/-- The only staker registers, is enabled, produces the first two blocks, and claims from the
second. -/
def soloRun : List Update :=
  [.block 0 .noSnaps false (soloBlock 3657599) (soloBlock 3657600) ∅,
    .block 0 .noSnaps false (soloBlock 3657600) (soloBlock 3657601) ∅,
    .block 0 .noSnaps false (soloBlock 3695099) (soloBlock 3695100) ∅,
    .block 1500000000 .noSnaps false (soloBlock 3695100)
      { soloBlock 3695101 with vDeets := [soloClaim] } ∅]

def roleCount (r : QPRegistry) (key : CPubKey) : Nat :=
  (r.mapStakers.toList.flatMap fun e => [e.2.pubkeyManager, e.2.pubkeyDelegate]).count key

theorem accounts_roleCount (r : QPRegistry) (key : CPubKey) : r.accounts.roleCount key = r.roleCount key := by
  rw [Accounts.roleCount, accounts, sumOver_map, sumOver, roleCount]
  generalize r.mapStakers.toList = l
  induction l with
  | nil => rfl
  | cons e l ih =>
    rw [List.map_cons, List.sum_cons, ih, List.flatMap_cons, List.count_append]
    by_cases hm : e.2.pubkeyManager = key <;> by_cases hd : e.2.pubkeyDelegate = key <;>
      simp [QPStaker.roleKeys, hm, hd]

variable {us : List Update} {deet : QPTxDetails} {u : Update}

/-- The active count of a key is the number of stakers and roles that name it, and the ledger has
exactly the keys with a count. -/
theorem mapActive_eq_roleCount {env : QPEnv} (hmain : env.fTestNet = false) {r : QPRegistry}
    (h : runUpdates env (empty env) us = some r) (key : CPubKey) :
    r.mapActive.getD key 0 = r.roleCount key ∧ (key ∈ r.mapActive ↔ key ∈ r.mapBalances) := by
  obtain ⟨hallowed, haccounts⟩ := books_runUpdates hmain .empty h
  obtain ⟨hbooked, hcounted⟩ := Accounts.run_booked (booked_empty env) (counted_empty env) hallowed
  rw [← haccounts] at hbooked hcounted
  constructor
  · rw [← accounts_roleCount]
    exact hcounted key
  · exact hbooked.ledger key

def ledgerTotal (r : QPRegistry) : Int := (r.mapBalances.toList.map fun e => e.2).sum

theorem runUpdates_solo : ∃ r, runUpdates mainEnv (empty mainEnv) soloRun = some r ∧ r.roleCount soloKey = 2 ∧
      r.ledgerTotal = 94064 := exists_of_mem (by decide +kernel)

theorem mapActive_eq_roleCount_solo :
    ∃ r, runUpdates mainEnv (empty mainEnv) soloRun = some r ∧ r.roleCount soloKey = 2 ∧
      r.mapActive.getD soloKey 0 = r.roleCount soloKey ∧
      (soloKey ∈ r.mapActive ↔ soloKey ∈ r.mapBalances) := by
  obtain ⟨r, hr, hcount, -⟩ := runUpdates_solo
  exact ⟨r, hr, hcount, mapActive_eq_roleCount rfl hr soloKey⟩

def Update.reward (env : QPEnv) : Update → Int
  | .block _ _ _ pindexPrev pindex _ =>
    if Fork.qpos ≤ getFork env.fTestNet pindex.nHeight then getQPoSReward pindexPrev else 0
  | _ => 0

def claimOf (deet : QPTxDetails) : Int := if deet.t = .claim then deet.value else 0

def Update.claimed (env : QPEnv) : Update → Int
  | .block _ _ _ _ pindex _ =>
    if Fork.purchase ≤ getFork env.fTestNet pindex.nHeight then (pindex.vDeets.map claimOf).sum
    else 0
  | _ => 0

/-- The money supply recorded in the index of the previous block is not negative. -/
def Update.HasSupply : Update → Prop
  | .time _ pindex => 0 ≤ pindex.nMoneySupply
  | .block _ _ _ pindexPrev _ _ => 0 ≤ pindexPrev.nMoneySupply
  | _ => True

theorem rewardShares_spec (s : QPStaker) {nReward : Int} (h : 0 ≤ nReward) :
    0 ≤ (s.rewardShares nReward).1 ∧ 0 ≤ (s.rewardShares nReward).2 ∧
      (s.rewardShares nReward).1 + (s.rewardShares nReward).2 = nReward := by
  rw [QPStaker.rewardShares]
  dsimp only
  split
  · exact ⟨h, Int.le_refl 0, Int.add_zero _⟩
  · have hcap : ((min 100000 s.nPcmDelegatePayout).toNat : Int) ≤ 100000 := by
      rw [show min 100000 s.nPcmDelegatePayout =
        if 100000 ≤ s.nPcmDelegatePayout then 100000 else s.nPcmDelegatePayout from rfl]
      split
      · exact Int.le_refl _
      · next hlt =>
        exact Int.ofNat_le.2 (Nat.le_of_lt (UInt32.lt_iff_toNat_lt.1 (UInt32.not_le.1 hlt)))
    have hnonneg : 0 ≤ nReward * ((min 100000 s.nPcmDelegatePayout).toNat : Int) :=
      Int.mul_nonneg h (Int.natCast_nonneg _)
    have hle : nReward * ((min 100000 s.nPcmDelegatePayout).toNat : Int) ≤ nReward * 100000 :=
      Int.mul_le_mul_of_nonneg_left hcap h
    rw [Int.tdiv_eq_ediv_of_nonneg hnonneg]
    dsimp only
    omega

theorem getQPoSReward_nonneg (h : 0 ≤ p.nMoneySupply) : 0 ≤ getQPoSReward p :=
  Int.tdiv_nonneg h (by decide)

theorem dockValue_nonneg {nMoneySupply : Int} (h : 0 ≤ nMoneySupply) : 0 ≤ dockValue nMoneySupply :=
  Int.tdiv_nonneg h (by decide)

theorem fair_advanceLog {nTime : UInt32}
    (h : 0 ≤ p.nMoneySupply) : ∀ op ∈ advanceLog env nTime p r, Accounts.Fair op := by
  intro op hop
  rw [mem_advanceLog hop]
  exact dockValue_nonneg h

theorem opLog_spec (h : r.applyOp env now b deet = .ok r') : (∀ op ∈ opLog b r deet, Accounts.Fair op) ∧
      ((opLog b r deet).map Accounts.credited).sum = 0 ∧
      ((opLog b r deet).map Accounts.claimed).sum = claimOf deet := by
  rw [claimOf]
  split
  · next ht =>
    -- an applied claim names one key
    simp only [applyOp, ht, applyClaim, ne_eq, not_true_eq_false, if_false] at h
    split at h
    · next key hkeys => simp [opLog, ht, hkeys, Accounts.Fair, Accounts.credited, Accounts.claimed]
    · cases h
  · next ht =>
    rw [opLog]
    split
    · split <;> simp [Accounts.Fair, Accounts.credited, Accounts.claimed]
    · split <;> simp [Accounts.Fair, Accounts.credited, Accounts.claimed]
    · simp [Accounts.Fair, Accounts.credited, Accounts.claimed]
    · simp [Accounts.Fair, Accounts.credited, Accounts.claimed]
    · next hclaim _ => exact absurd hclaim ht
    · simp

theorem opsLog_spec : ∀ {deets : List QPTxDetails} {r r' : QPRegistry}, r.applyOps env now b deets = .ok r' →
      (∀ op ∈ opsLog env now b r deets, Accounts.Fair op) ∧
      ((opsLog env now b r deets).map Accounts.credited).sum = 0 ∧
      ((opsLog env now b r deets).map Accounts.claimed).sum = (deets.map claimOf).sum
  | [], _, _, _ => ⟨fun _ h => absurd h List.not_mem_nil, rfl, rfl⟩
  | deet :: rest, r, r', h => by
    rw [applyOps] at h
    split at h
    · cases h
    · next r₁ hop =>
      obtain ⟨hfair, hcredited, hclaimed⟩ := opsLog_spec h
      have hhead := opLog_spec hop
      simp only [opsLog, hop, List.map_append, List.sum_append, List.map_cons, List.sum_cons,
        hcredited, hclaimed, hhead.2.1, hhead.2.2, List.forall_mem_append]
      exact ⟨⟨hhead.1, hfair⟩, rfl, trivial⟩

theorem produceBlock_staker
    (hfork : Fork.qpos ≤ getFork env.fTestNet b.nHeight) (h : r.produceBlock env p b = .ok r') :
    ∃ s, r.getStakerInternal b.nStakerID = some s := by
  obtain ⟨-, -, r₁, hprod, -⟩ := produceBlock_ok hfork h
  refine Option.ne_none_iff_exists'.1 fun hnone => ?_
  simp [stakerProducedBlock, hnone] at hprod

theorem produceLog_spec (hsupply : 0 ≤ p.nMoneySupply) (h : r.produceBlock env p b = .ok r') :
    (∀ op ∈ produceLog env p b r, Accounts.Fair op) ∧
      ((produceLog env p b r).map Accounts.credited).sum =
        (if Fork.qpos ≤ getFork env.fTestNet b.nHeight then getQPoSReward p else 0) ∧
      ((produceLog env p b r).map Accounts.claimed).sum = 0 := by
  rw [produceLog]
  split
  · next hfork =>
    obtain ⟨s, hs⟩ := produceBlock_staker hfork h
    obtain ⟨hmanager, hdelegate, hsum⟩ := rewardShares_spec s (getQPoSReward_nonneg hsupply)
    simp only [hs, List.mem_singleton, forall_eq, List.map_cons, List.map_nil, List.sum_cons,
      List.sum_nil, Accounts.Fair, Accounts.credited, Accounts.claimed, Int.add_zero,
      max_eq_left hdelegate, hsum, hmanager, and_self]
  · exact ⟨fun _ hop => absurd hop List.not_mem_nil, rfl, rfl⟩

theorem updateLog_spec (hsupply : u.HasSupply) (h : r.update env u = some r') :
    (∀ op ∈ r.updateLog env u, Accounts.Fair op) ∧
      ((r.updateLog env u).map Accounts.credited).sum = u.reward env ∧
      ((r.updateLog env u).map Accounts.claimed).sum = u.claimed env := by
  have hadvance : ∀ (nTime : UInt32) (p : CBlockIndex) (r : QPRegistry), 0 ≤ p.nMoneySupply →
      (∀ op ∈ advanceLog env nTime p r, Accounts.Fair op) ∧
        ((advanceLog env nTime p r).map Accounts.credited).sum = 0 ∧
        ((advanceLog env nTime p r).map Accounts.claimed).sum = 0 := by
    intro nTime p r hp
    refine ⟨fair_advanceLog hp, List.sum_eq_zero ?_, List.sum_eq_zero ?_⟩
    · simp only [List.forall_mem_map]
      exact fun op hop => by rw [mem_advanceLog hop]; rfl
    · simp only [List.forall_mem_map]
      exact fun op hop => by rw [mem_advanceLog hop]; rfl
  cases u with
  | time nTime p => exact hadvance nTime p r hsupply
  | block now nSnapshotType fJustCheck p b db =>
    rw [update] at h
    split at h
    · next heq =>
      obtain ⟨r₁, r₂, hops, hprod, -⟩ := finishBlock_accepted (updateOnNewBlock_accepted heq).2
      obtain ⟨hfair, hcredited, hclaimed⟩ :=
        hadvance b.nTime p (r.beforeAdvance env nSnapshotType p b db) hsupply
      obtain ⟨hfair', hcredited', hclaimed'⟩ := produceLog_spec hsupply hprod
      have happly := applyBlockOps_ok hops
      simp only [updateLog, finishLog, hops, List.map_append, List.sum_append, hcredited,
        hclaimed, hcredited', hclaimed', List.forall_mem_append, Update.reward, Update.claimed]
      split at happly
      · next hfork =>
        obtain ⟨hfair'', hcredited'', hclaimed''⟩ := opsLog_spec happly
        simp only [if_pos hfork, hcredited'', hclaimed'']
        exact ⟨⟨hfair, hfair'', hfair'⟩, by omega, by omega⟩
      · next hfork =>
        simp only [if_neg hfork]
        exact ⟨⟨hfair, fun _ hop => absurd hop List.not_mem_nil, hfair'⟩, by simp, rfl⟩
    · cases h
  | exitReplay | enterReplay | sync now => exact ⟨fun _ hop => absurd hop List.not_mem_nil, rfl, rfl⟩

theorem runLog_spec : ∀ {us : List Update} {r r' : QPRegistry},
    (∀ u ∈ us, u.HasSupply) → runUpdates env r us = some r' →
      (∀ op ∈ runLog env r us, Accounts.Fair op) ∧
        ((runLog env r us).map Accounts.credited).sum = (us.map (Update.reward env)).sum ∧
        ((runLog env r us).map Accounts.claimed).sum = (us.map (Update.claimed env)).sum
  | [], _, _, _, _ => ⟨fun _ hop => absurd hop List.not_mem_nil, rfl, rfl⟩
  | u :: us, r, r', hsupply, h => by
    obtain ⟨r₁, hu, hus⟩ := Option.bind_eq_some_iff.1 h
    obtain ⟨hhead, htail⟩ := List.forall_mem_cons.1 hsupply
    obtain ⟨hfair, hcredited, hclaimed⟩ := updateLog_spec hhead hu
    obtain ⟨hfair', hcredited', hclaimed'⟩ := runLog_spec htail hus
    simp only [runLog, hu, List.map_append, List.sum_append, List.map_cons, List.sum_cons,
      hcredited, hclaimed, hcredited', hclaimed', List.forall_mem_append]
    exact ⟨⟨hfair, hfair'⟩, trivial, trivial⟩

/-- The log of a produced block ends with its reward, shared by manager and delegate. -/
theorem updateLog_produced {nSnapshotType : SnapshotType} {fJustCheck : Bool} {db : SnapshotDB}
    (hsupply : 0 ≤ p.nMoneySupply) (hfork : Fork.qpos ≤ getFork env.fTestNet b.nHeight)
    (h : r.update env (.block now nSnapshotType fJustCheck p b db) = some r') : ∃ ops nManager nDelegate,
      r.updateLog env (.block now nSnapshotType fJustCheck p b db) =
        ops ++ [.reward b.nStakerID nManager nDelegate] ∧
      0 ≤ nManager ∧ 0 ≤ nDelegate ∧ nManager + nDelegate = getQPoSReward p := by
  rw [update] at h
  split at h
  · next heq =>
    obtain ⟨r₁, r₂, hops, hprod, -⟩ := finishBlock_accepted (updateOnNewBlock_accepted heq).2
    obtain ⟨s, hs⟩ := produceBlock_staker hfork hprod
    simp only [updateLog, finishLog, hops, produceLog, if_pos hfork, hs]
    rw [← List.append_assoc]
    exact ⟨_, _, _, rfl, rewardShares_spec s (getQPoSReward_nonneg hsupply)⟩
  · cases h

/-- What the run took from the ledger at the ends of queues and at activations. -/
def runTotals (env : QPEnv) (us : List Update) : Totals :=
  (empty env).accounts.flows (runLog env (empty env) us)

/-- No balance is negative, and the ledger holds the rewards of all produced blocks less claims,
docked amounts, purged balances and resets. Each produced block pays exactly its reward to the
manager and the delegate of its producer. -/
theorem ledger_conserved {env : QPEnv} (hmain : env.fTestNet = false) {r : QPRegistry}
    (hsupply : ∀ u ∈ us, u.HasSupply) (h : runUpdates env (empty env) us = some r) :
    (∀ (key : CPubKey) (n : Int), r.mapBalances[key]? = some n → 0 ≤ n) ∧
      r.ledgerTotal = (us.map (Update.reward env)).sum - (us.map (Update.claimed env)).sum -
        (runTotals env us).docked - (runTotals env us).purged - (runTotals env us).reset ∧
      ∀ pre now nSnapshotType fJustCheck p b db post r₀,
        us = pre ++ .block now nSnapshotType fJustCheck p b db :: post →
        runUpdates env (empty env) pre = some r₀ →
        Fork.qpos ≤ getFork env.fTestNet b.nHeight →
        ∃ ops nManager nDelegate,
          r₀.updateLog env (.block now nSnapshotType fJustCheck p b db) =
            ops ++ [.reward b.nStakerID nManager nDelegate] ∧
          0 ≤ nManager ∧ 0 ≤ nDelegate ∧ nManager + nDelegate = getQPoSReward p := by
  obtain ⟨hallowed, haccounts⟩ := books_runUpdates hmain .empty h
  obtain ⟨hfair, hcredited, hclaimed⟩ := runLog_spec hsupply h
  obtain ⟨hrewards, hclaims⟩ := Accounts.flows_rewards_claims hallowed
  have hsolvent : Accounts.Solvent (empty env).accounts := by
    intro key n hn
    cases (show (∅ : Map CPubKey Int)[key]? = none from rfl) ▸ hn
  refine ⟨?_, ?_, ?_⟩
  · intro key n hn
    have hrun := hsolvent.run hallowed hfair
    rw [← haccounts] at hrun
    exact hrun key n hn
  · have htotal := Accounts.total_run (a := (empty env).accounts) (runLog env (empty env) us)
    rw [← haccounts] at htotal
    have hzero : (empty env).accounts.total = 0 := rfl
    rw [ledgerTotal]
    change r.accounts.total = _
    rw [htotal, hzero, Totals.net, hrewards, hclaims, hcredited, hclaimed, Int.zero_add]
    rfl
  · rintro pre now nSnapshotType fJustCheck p b db post r₀ rfl hpre hfork
    rw [runUpdates_append, hpre, Option.bind_some] at h
    obtain ⟨r₁, hu, -⟩ := Option.bind_eq_some_iff.1 h
    have hp : 0 ≤ p.nMoneySupply :=
      hsupply _ (List.mem_append_right _ (List.mem_cons_self ..))
    exact updateLog_produced hp hfork hu

theorem ledger_conserved_solo :
    ∃ r, runUpdates mainEnv (empty mainEnv) soloRun = some r ∧ r.ledgerTotal = 94064 ∧
      r.ledgerTotal = (soloRun.map (Update.reward mainEnv)).sum -
        (soloRun.map (Update.claimed mainEnv)).sum - (runTotals mainEnv soloRun).docked -
        (runTotals mainEnv soloRun).purged - (runTotals mainEnv soloRun).reset := by
  obtain ⟨r, hr, -, htotal⟩ := runUpdates_solo
  refine ⟨r, hr, htotal, (ledger_conserved rfl ?_ hr).2.1⟩
  simp [soloRun, Update.HasSupply, soloBlock]

def Update.blockTime : Update → Option Int
  | .block _ _ _ _ pindex _ => some pindex.nTime.toNat
  | _ => none

theorem timeOf_opLog (hop : op ∈ opLog b r deet) (ht : Accounts.timeOf op = some t) :
    t = b.nTime.toNat := by
  rw [opLog] at hop
  have hsingle : ∀ {o : AccountOp CPubKey}, op ∈ [o] →
      Accounts.timeOf o = some (b.nTime.toNat : Int) → t = b.nTime.toNat := by
    intro o ho hto
    rw [List.mem_singleton.1 ho, hto] at ht
    exact (Option.some.inj ht).symm
  split at hop
  · split at hop
    · cases hop
    · exact hsingle hop rfl
  · split at hop
    · cases hop
    · exact hsingle hop rfl
  · exact hsingle hop rfl
  · exact hsingle hop rfl
  · exact hsingle hop rfl
  · cases hop

theorem timeOf_opsLog (ht : Accounts.timeOf op = some t) : ∀ {deets : List QPTxDetails} {r : QPRegistry},
    op ∈ opsLog env now b r deets → t = b.nTime.toNat
  | [], _, hop => by cases hop
  | deet :: rest, r, hop => by
    rw [opsLog] at hop
    rcases List.mem_append.1 hop with hhead | htail
    · exact timeOf_opLog hhead ht
    · split at htail
      · cases htail
      · exact timeOf_opsLog ht htail

theorem timeOf_updateLog (hop : op ∈ r.updateLog env u) (ht : Accounts.timeOf op = some t) :
    u.blockTime = some t := by
  have hadvance : ∀ {nTime : UInt32} {p : CBlockIndex} {r : QPRegistry},
      op ∉ advanceLog env nTime p r := by
    intro nTime p r hmem
    rw [mem_advanceLog hmem] at ht
    cases ht
  cases u with
  | time nTime p => exact absurd hop hadvance
  | block now nSnapshotType fJustCheck p b db =>
    rcases List.mem_append.1 hop with hmem | hmem
    · exact absurd hmem hadvance
    · rw [finishLog] at hmem
      rcases List.mem_append.1 hmem with hops | hreward
      · split at hops
        · rw [timeOf_opsLog ht hops]
          rfl
        · cases hops
      · split at hreward
        · cases hreward
        · rw [produceLog] at hreward
          split at hreward
          · split at hreward
            · cases hreward
            · rw [List.mem_singleton.1 hreward] at ht
              cases ht
          · cases hreward
  | exitReplay => cases hop
  | enterReplay => cases hop
  | sync now => cases hop

theorem timeOf_runLog (ht : Accounts.timeOf op = some t) : ∀ {us : List Update} {r : QPRegistry},
    op ∈ runLog env r us → t ∈ us.filterMap Update.blockTime
  | [], _, hop => by cases hop
  | u :: us, r, hop => by
    rw [runLog] at hop
    rw [List.mem_filterMap]
    rcases List.mem_append.1 hop with hhead | htail
    · exact ⟨u, List.mem_cons_self .., timeOf_updateLog hhead ht⟩
    · split at htail
      · cases htail
      · obtain ⟨v, hv, hvt⟩ := List.mem_filterMap.1 (timeOf_runLog ht htail)
        exact ⟨v, List.mem_cons_of_mem _ hv, hvt⟩

/-- The log of a run whose block times do not decrease is in the order of its times. -/
theorem runLog_sorted : ∀ {us : List Update} {r : QPRegistry},
    (us.filterMap Update.blockTime).Pairwise (· ≤ ·) →
      (runLog env r us).Pairwise fun o o' => ∀ t t', Accounts.timeOf o = some t →
        Accounts.timeOf o' = some t' → t ≤ t'
  | [], _, _ => .nil
  | u :: us, r, hsorted => by
    have htail : (us.filterMap Update.blockTime).Pairwise (· ≤ ·) := by
      rw [List.filterMap_cons] at hsorted
      split at hsorted
      · exact hsorted
      · exact hsorted.of_cons
    rw [runLog]
    refine List.pairwise_append.2 ⟨List.pairwise_of_forall_mem_list ?_, ?_, ?_⟩
    · intro o ho o' ho' t t' ht ht'
      rw [Option.some.inj ((timeOf_updateLog ho ht).symm.trans (timeOf_updateLog ho' ht'))]
    · split
      · exact .nil
      · exact runLog_sorted htail
    · intro o ho o' ho' t t' ht ht'
      split at ho'
      · cases ho'
      · rw [List.filterMap_cons, timeOf_updateLog ho ht] at hsorted
        exact List.rel_of_pairwise_cons hsorted (timeOf_runLog ht' ho')

/-- With positive block times that do not decrease, a claim is applied a day or more after every
earlier claim and activation of its key. -/
theorem claims_spaced {env : QPEnv} (hmain : env.fTestNet = false) {r : QPRegistry}
    (h : runUpdates env (empty env) us = some r)
    (hsorted : (us.filterMap Update.blockTime).Pairwise (· ≤ ·))
    (hpos : ∀ t ∈ us.filterMap Update.blockTime, 0 < t) {pre mid post : List (AccountOp CPubKey)}
    {op : AccountOp CPubKey} {key : CPubKey} {t₁ t₂ nValue : Int}
    (hlog : runLog env (empty env) us = pre ++ op :: (mid ++ .claim key nValue t₂ :: post))
    (hop : (∃ n, op = .claim key n t₁) ∨ ((empty env).accounts.run pre).Activates op key t₁) :
    t₁ + QP_MIN_SECS_PER_CLAIM ≤ t₂ := by
  have htime : Accounts.timeOf op = some t₁ := by
    rcases hop with ⟨n, rfl⟩ | hact
    · rfl
    · exact hact.2.2
  have hordered := @runLog_sorted env us (empty env) hsorted
  rw [hlog] at hordered
  have hafter := (List.pairwise_cons.1 (List.pairwise_append.1 hordered).2.1).1
  refine Accounts.claim_spaced (hlog ▸ (books_runUpdates hmain .empty h).1) hop ?_ ?_
  · intro o ho t ht
    exact hafter o (List.mem_append_left _ ho) t₁ t htime ht
  · have hmem : .claim key nValue t₂ ∈ runLog env (empty env) us := by
      rw [hlog]
      simp
    exact hpos t₂ (timeOf_runLog rfl hmem)

theorem claims_spaced_solo : ∃ t₁ t₂ : Int, (∃ pre mid post, runLog mainEnv (empty mainEnv) soloRun =
        pre ++ .register 1 soloKey soloKey t₁ :: (mid ++ .claim soloKey 1000 t₂ :: post)) ∧
      t₁ + QP_MIN_SECS_PER_CLAIM ≤ t₂ := by
  obtain ⟨r, hr, -, -⟩ := runUpdates_solo
  have hlog : runLog mainEnv (empty mainEnv) soloRun =
      [] ++ .register 1 soloKey soloKey 1421972997 ::
        ([.reward 1 47532 0, .endRound 96] ++ .claim soloKey 1000 1422160502 :: [.reward 1 47532 0]) := by
    decide +kernel
  refine ⟨_, _, ⟨_, _, _, hlog⟩, claims_spaced rfl hr ?_ ?_ hlog (.inr ⟨?_, ?_, rfl⟩)⟩
  · decide +kernel
  · decide +kernel
  · decide +kernel
  · decide +kernel

def epochBlock (nHeight nStakerID : Nat) (vDeets : List QPTxDetails) : CBlockIndex :=
  { soloBlock nHeight with nTime := 0, nStakerID, vDeets }

/-- The run of the only staker at block time zero, with two claims in one block. -/
def epochRun : List Update :=
  [.block 86400 .noSnaps false (epochBlock 3657599 0 []) (epochBlock 3657600 0 [soloPurchase]) ∅,
    .block 86400 .noSnaps false (epochBlock 3657600 0 [soloPurchase])
      (epochBlock 3657601 0 [soloEnable]) ∅,
    .block 86400 .noSnaps false (epochBlock 3695099 0 []) (epochBlock 3695100 1 []) ∅,
    .block 86400 .noSnaps false (epochBlock 3695100 1 [])
      (epochBlock 3695101 1 [soloClaim, soloClaim]) ∅]

/-- A block time of zero stands for the local clock in `CanClaimInternal`, so that two claims can
have the same block time. -/
theorem claims_not_spaced_epoch : (runUpdates mainEnv (empty mainEnv) epochRun).isSome = true ∧
      (epochRun.filterMap Update.blockTime).Pairwise (· ≤ ·) ∧
      runLog mainEnv (empty mainEnv) epochRun =
        [.register 1 soloKey soloKey 0, .reward 1 47532 0] ++
          .claim soloKey 1000 0 :: ([] ++ .claim soloKey 1000 0 :: [.reward 1 47532 0]) ∧
      ¬ (0 : Int) + QP_MIN_SECS_PER_CLAIM ≤ 0 := by
  decide +kernel

end Stealth.QPRegistry

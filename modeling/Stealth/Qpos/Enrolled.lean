import Stealth.Qpos.Names
import Stealth.Qpos.Ledger

/-!
The roll of stakers: the maps of aliases, owners and characters are tables and indices of the list of
registrations.
-/

namespace Stealth.QPRegistry

open Roll

variable {env : QPEnv} {roll : List Registration} {r r' : QPRegistry} {deets : List QPTxDetails}

/-- The names of a registry are tables and indices of a roll. -/
structure Represents (env : QPEnv) (roll : List Registration) (n : Names) : Prop where
  counter : n.nIDCounter = roll.length
  aliases : Lists roll Registration.sAlias fun nID => n.aliasOf[nID]?
  keys : Finds roll Registration.sKey fun sKey => (n.mapAliases[sKey]?).map Prod.fst
  owners : Lists roll Registration.nNftID fun nID => n.mapNftOwners[nID]?
  lookup : Finds roll Registration.nNftID fun nNftID => n.mapNftOwnerLookup[nNftID]?
  known : ∀ g ∈ roll, env.nfts.mapNfts.contains g.nNftID = true

theorem represents_empty (env : QPEnv) : Represents env [] (empty env).names where
  counter := rfl
  aliases := by
    intro nID
    simp [names, empty]
  keys := by
    intro sKey nID
    simp [names, empty]
  owners := by
    intro nID
    simp [names, empty]
  lookup := by
    intro nNftID nID
    simp [names, empty]
  known := by simp

theorem getElem?_insert_of {α β : Type} [Ord α] [Std.TransOrd α] [Std.LawfulEqOrd α] [DecidableEq α]
    (m : Map α β) (k : α) (v : β) (k' : α) : (m.insert k v)[k']? = if k' = k then some v else m[k']? := by
  simp only [getElem?_insert, Std.LawfulEqCmp.compare_eq_iff_eq, eq_comm (a := k')]

variable {us : List Update} {g : Registration} {b : CBlockIndex}

theorem Represents.register (h : Represents env roll r.names) (hv : Vacant env r g) :
    Represents env (roll ++ [g]) (r.names.register g) where
  counter := by
    rw [Names.register, h.counter, List.length_append]
    rfl
  aliases := h.aliases.append g fun nID => by
    rw [Names.register, h.counter, getElem?_insert_of]
  keys := h.keys.append g (by simp [names, hv.key]) fun sKey => by
    rw [Names.register, h.counter, getElem?_insert_of]
    split <;> rfl
  owners := h.owners.append g fun nID => by
    rw [Names.register, h.counter, getElem?_insert_of]
  lookup := h.lookup.append g hv.nft fun nNftID => by
    rw [Names.register, h.counter, getElem?_insert_of]
  known := by
    intro g' hg'
    rcases List.mem_append.1 hg' with hold | hnew
    · exact h.known g' hold
    · rw [List.mem_singleton.1 hnew]
      exact hv.known

def Enrolled (env : QPEnv) (deets : List QPTxDetails) (r : QPRegistry) : Prop :=
  ∃ roll, Represents env roll r.names ∧
    roll.map (fun g => (g.sKey, g.sAlias)) =
      deets.map fun deet => (toLowercaseSafe deet.sAlias, reportedAlias env deet)

theorem Enrolled.of_names (h : Enrolled env deets r) (heq : r'.names = r.names) : Enrolled env deets r' := by
  obtain ⟨roll, hroll, hmap⟩ := h
  exact ⟨roll, heq ▸ hroll, hmap⟩

theorem Enrolled.applyPurchase {deet : QPTxDetails} (h : Enrolled env deets r)
    (hr' : r.applyPurchase env deet b = .ok r') : Enrolled env (deets ++ [deet]) r' := by
  obtain ⟨roll, hroll, hmap⟩ := h
  obtain ⟨-, nNftID, hvacant, hnames⟩ := applyPurchase_ok hr'
  refine ⟨_, hnames ▸ hroll.register hvacant, ?_⟩
  rw [List.map_append, List.map_append, hmap]
  rfl

theorem Enrolled.applyOps {now : Int} :
    ∀ {ops deets : List QPTxDetails} {r r' : QPRegistry}, Enrolled env deets r →
      r.applyOps env now b ops = .ok r' → Enrolled env (deets ++ ops.filter isPurchase) r'
  | [], deets, r, r', h, hr' => by
    cases hr'
    rwa [List.filter_nil, List.append_nil]
  | deet :: ops, deets, r, r', h, hr' => by
    rw [QPRegistry.applyOps] at hr'
    split at hr'
    · cases hr'
    · next r₁ hop =>
      cases hdeet : isPurchase deet with
      | true =>
        rw [applyOp_purchase hdeet] at hop
        have hrest := (h.applyPurchase hop).applyOps hr'
        rwa [List.filter_cons_of_pos hdeet, List.append_cons]
      | false =>
        rw [List.filter_cons_of_neg (by simp [hdeet])]
        exact (h.of_names ((editsStaker_applyOp hdeet hop).names)).applyOps hr'

theorem Enrolled.update {u : Update} (h : Enrolled env deets r) (hr' : r.update env u = some r') :
    Enrolled env (deets ++ u.purchases env) r' := by
  cases u with
  | time nTime pindex =>
    cases hr'
    rw [Update.purchases, List.append_nil]
    exact h.of_names (names_advanceTime env nTime pindex r)
  | block now nSnapshotType fJustCheck p b db =>
    rw [QPRegistry.update] at hr'
    split at hr'
    · next hblock =>
      cases hr'
      obtain ⟨r₁, r₂, hops, hprod, rfl⟩ :=
        finishBlock_accepted (updateOnNewBlock_accepted hblock).2
      have hafter := names_produceBlock hprod
      refine Enrolled.of_names (r := r₁) ?_ hafter
      have hbefore := h.of_names ((names_advanceTime env b.nTime p _).trans
        (sameIdentity_beforeAdvance env nSnapshotType p b db r).names)
      have hok := applyBlockOps_ok hops
      rw [Update.purchases, purchasesOf]
      split at hok
      · next hfork =>
        rw [if_pos hfork]
        exact hbefore.applyOps hok
      · next hfork =>
        rw [if_neg hfork, List.append_nil, hok]
        exact hbefore
    · cases hr'
  | exitReplay =>
    cases hr'
    rw [Update.purchases, List.append_nil]
    exact h.of_names rfl
  | enterReplay =>
    cases hr'
    rw [Update.purchases, List.append_nil, enterReplayMode]
    split <;> exact h.of_names rfl
  | sync now =>
    cases hr'
    rw [Update.purchases, List.append_nil, checkSynced]
    split <;> exact h.of_names rfl

theorem Enrolled.runUpdates : ∀ {us : List Update} {deets : List QPTxDetails}
    {r r' : QPRegistry}, Enrolled env deets r → runUpdates env r us = some r' →
      Enrolled env (deets ++ runPurchases env us) r'
  | [], deets, r, r', h, hr' => by
    cases hr'
    rwa [runPurchases, List.flatMap_nil, List.append_nil]
  | u :: us, deets, r, r', h, hr' => by
    obtain ⟨r₁, hu, hus⟩ := Option.bind_eq_some_iff.1 hr'
    have hrest := (h.update hu).runUpdates hus
    rwa [List.append_assoc] at hrest

theorem enrolled_run (h : runUpdates env (empty env) us = some r) :
    Enrolled env (runPurchases env us) r :=
  @Enrolled.runUpdates env us [] _ _ ⟨[], represents_empty env, rfl⟩ h

theorem contains_aliasOf (r : QPRegistry) (nID : Nat) :
    (r.names.aliasOf[nID]?).isSome = r.mapStakers.contains nID := by
  rw [names, getElem?_map, Option.isSome_map, Std.ExtTreeMap.isSome_getElem?_eq_contains]

/-- Stakers and characters belong to each other one to one. -/
theorem owners_one_to_one {env : QPEnv} {r : QPRegistry} (h : runUpdates env (empty env) us = some r) :
    (∀ nID nNftID : Nat,
      r.mapNftOwners[nID]? = some nNftID ↔ r.mapNftOwnerLookup[nNftID]? = some nID) ∧
      (∀ nID, r.mapStakers.contains nID = true ↔ ∃! nNftID : Nat, r.mapNftOwners[nID]? = some nNftID) ∧
      (∀ nID nID' nNftID : Nat, r.mapNftOwners[nID]? = some nNftID → r.mapNftOwners[nID']? = some nNftID →
        nID = nID') ∧
      ∀ nID nNftID : Nat, r.mapNftOwners[nID]? = some nNftID → env.nfts.mapNfts.contains nNftID = true := by
  obtain ⟨roll, hroll, -⟩ := enrolled_run h
  have hinverse : ∀ nID nNftID : Nat,
      r.mapNftOwners[nID]? = some nNftID ↔ r.mapNftOwnerLookup[nNftID]? = some nID :=
    fun nID nNftID => (hroll.lookup.inverse hroll.owners nNftID nID).symm
  refine ⟨hinverse, fun nID => ?_, fun nID nID' nNftID hn hn' => ?_, fun nID nNftID hn => ?_⟩
  · rw [← contains_aliasOf, hroll.aliases.isSome, ← hroll.owners.isSome, Option.isSome_iff_exists]
    exact ⟨fun ⟨n, hn⟩ => ⟨n, hn, fun n' hn' => Option.some.inj (hn'.symm.trans hn)⟩,
      fun ⟨n, hn, _⟩ => ⟨n, hn⟩⟩
  · exact Option.some.inj (((hinverse nID nNftID).1 hn).symm.trans ((hinverse nID' nNftID).1 hn'))
  · obtain ⟨-, hentry⟩ := hroll.owners.eq_some.1 hn
    obtain ⟨g, hg, rfl⟩ := Option.map_eq_some_iff.1 hentry
    exact hroll.known g (List.mem_of_getElem? hg)

theorem owners_one_to_one_solo : ∃ r, runUpdates mainEnv (empty mainEnv) soloRun = some r ∧
      (r.mapStakers.contains 1 = true ↔ ∃! nNftID : Nat, r.mapNftOwners[1]? = some nNftID) := by
  obtain ⟨r, hr, -⟩ := runUpdates_solo
  exact ⟨r, hr, (owners_one_to_one hr).2.1 1⟩

/-- No two stakers report the same alias up to letter case, and the alias of a staker leads back to its
identifier. -/
def AliasesIdentify (r : QPRegistry) : Prop :=
  (∀ (nID nID' : Nat) (s s' : QPStaker), r.mapStakers[nID]? = some s →
    r.mapStakers[nID']? = some s' → toLowercaseSafe s.sAlias = toLowercaseSafe s'.sAlias → nID = nID') ∧
  ∀ nID sAlias, r.getAliasForID nID = some sAlias → r.getIDForAlias sAlias = some nID

theorem Represents.getAliasForID (h : Represents env roll r.names) (nID : Nat) :
    r.getAliasForID nID = r.names.aliasOf[nID]? := by
  have hsome := h.aliases.isSome (i := nID)
  rw [← h.counter] at hsome
  rw [QPRegistry.getAliasForID, getStakerInternal, names, getElem?_map]
  split
  · rfl
  · next hrange =>
    have hnone := Option.not_isSome_iff_eq_none.1 fun hs => hrange (hsome.1 hs)
    rw [names, getElem?_map] at hnone
    exact hnone.symm

/-- Aliases and identifiers are those of the purchases of a run, in their order, whatever else happened. -/
theorem directory_of_run (h : runUpdates env (empty env) us = some r) (i : Nat) (sAlias : Bytes) :
    r.getAliasForID (i + 1) = (runPurchases env us)[i]?.map (reportedAlias env) ∧
      (r.getIDForAlias sAlias = some (i + 1) ↔
        (runPurchases env us)[i]?.map (toLowercaseSafe ·.sAlias) = some (toLowercaseSafe sAlias)) := by
  obtain ⟨roll, hroll, hmap⟩ := enrolled_run h
  have hentry := congrArg (·[i]?) hmap
  simp only [List.getElem?_map] at hentry
  have hkey := congrArg (Option.map Prod.fst) hentry
  have halias := congrArg (Option.map Prod.snd) hentry
  rw [Option.map_map, Option.map_map] at hkey halias
  constructor
  · exact (hroll.getAliasForID _).trans ((hroll.aliases _).trans halias)
  · exact (hroll.keys _ (i + 1)).trans ((and_iff_right i.succ_pos).trans (Eq.congr_left hkey))

theorem directory_of_run_solo : ∃ r, runUpdates mainEnv (empty mainEnv) soloRun = some r ∧
    r.getAliasForID 1 = (runPurchases mainEnv soloRun)[0]?.map (reportedAlias mainEnv) := by
  obtain ⟨r, hr, -⟩ := runUpdates_solo
  exact ⟨r, hr, (directory_of_run hr 0 []).1⟩

/-- The alias of a staker leads back to it exactly if the staker reports what was bought. -/
theorem Represents.getIDForAlias (h : Represents env roll r.names) {i : Nat} (hg : roll[i]? = some g) :
    r.getIDForAlias g.sAlias = some (i + 1) ↔ toLowercaseSafe g.sAlias = g.sKey := by
  have hkey := h.keys (toLowercaseSafe g.sAlias) (i + 1)
  rw [Nat.add_sub_cancel, hg] at hkey
  refine hkey.trans ⟨fun hfound => (Option.some.inj hfound.2).symm, fun heq => ⟨Nat.succ_pos i, ?_⟩⟩
  rw [heq]
  rfl

def KeysAreNicknames (nfts : NftTable) : Prop :=
  ∀ e ∈ nfts.mapNfts.toList, e.2.strCharKey = toLowercaseSafe e.2.strNickname

/-- The characters of the main network without the two that have a space in their nickname. -/
def plainNfts : NftTable where
  mapNfts := Std.ExtTreeMap.ofList
    (nftsMain.filter fun e => e.2.strCharKey = toLowercaseSafe e.2.strNickname) compare
  mapNftLookup := Std.ExtTreeMap.ofList
    (nftLookupMain.filter fun e => e.2 ≠ 58 ∧ e.2 ≠ 80) compare

def plainEnv : QPEnv := { mainEnv with nfts := plainNfts }

def katarina : Bytes := [107, 97, 116, 97, 114, 105, 110, 97]

/-- Purchases of the aliases `katrina`, which the lookup table has for character 72, and `katarina`, which
is the nickname of that character. -/
def katarinaPurchases : List QPTxDetails :=
  [{ soloPurchase with sAlias := [107, 97, 116, 114, 105, 110, 97] },
    { soloPurchase with sAlias := katarina }]

def katarinaRun : List Update :=
  [.block 0 .noSnaps false (soloBlock 3657599)
    { soloBlock 3657600 with vDeets := katarinaPurchases } ∅]

end Stealth.QPRegistry

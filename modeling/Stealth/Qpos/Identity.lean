import Stealth.Qpos.AccountFlows
import Stealth.Qpos.Slots

/-!
What the registry says of the identity of its stakers: their names, and the accounts of their keys. Missed slots,
seen blocks and the corrections at a fork change neither.
-/

namespace Stealth

open Tally

variable {r r' : QPRegistry} {nID : Nat} {s s' : QPStaker}

/-- Who is who. -/
@[ext] structure Names where
  nIDCounter : Nat
  aliasOf : Map Nat Bytes
  mapAliases : Map Bytes (Nat × Bytes)
  mapNftOwners : Map Nat Nat
  mapNftOwnerLookup : Map Nat Nat

def QPStaker.roleKeys (s : QPStaker) : CPubKey × CPubKey := (s.pubkeyManager, s.pubkeyDelegate)

namespace QPRegistry

def names (r : QPRegistry) : Names where
  nIDCounter := r.nIDCounter
  aliasOf := r.mapStakers.map fun _ s => s.sAlias
  mapAliases := r.mapAliases
  mapNftOwners := r.mapNftOwners
  mapNftOwnerLookup := r.mapNftOwnerLookup

def accounts (r : QPRegistry) : Accounts CPubKey where
  roles := r.mapStakers.map fun _ s => s.roleKeys
  balances := r.mapBalances
  lastClaim := r.mapLastClaim
  active := r.mapActive

theorem names_putStaker (r : QPRegistry) (nID : Nat) (s : QPStaker) :
    (r.putStaker nID s).names = { r.names with aliasOf := r.names.aliasOf.insert nID s.sAlias } := by
  rw [names, putStaker, names, map_insert]

theorem aliasOf_getElem? (h : r.mapStakers[nID]? = some s) : r.names.aliasOf[nID]? = some s.sAlias := by
  rw [names, getElem?_map, h]
  rfl

theorem names_putStaker_same (h : r.mapStakers[nID]? = some s) (hsame : s'.sAlias = s.sAlias) :
    (r.putStaker nID s').names = r.names := by
  rw [names_putStaker, hsame, insert_eq_self (aliasOf_getElem? h)]

theorem accounts_putStaker (r : QPRegistry) (nID : Nat) (s : QPStaker) :
    (r.putStaker nID s).accounts = r.accounts.setRole nID s.roleKeys := by
  rw [accounts, putStaker, accounts, Accounts.setRole, map_insert]

theorem roles_getElem? (h : r.mapStakers[nID]? = some s) : r.accounts.roles[nID]? = some s.roleKeys := by
  rw [accounts, getElem?_map, h]
  rfl

theorem accounts_putStaker_same (h : r.mapStakers[nID]? = some s) (hkeys : s'.roleKeys = s.roleKeys) :
    (r.putStaker nID s').accounts = r.accounts := by
  rw [accounts_putStaker, Accounts.setRole, hkeys, insert_eq_self (roles_getElem? h)]

structure SameIdentity (r r' : QPRegistry) : Prop where
  names : r'.names = r.names
  accounts : r'.accounts = r.accounts

theorem SameIdentity.trans {r'' : QPRegistry} (h : SameIdentity r r') (h' : SameIdentity r' r'') :
    SameIdentity r r'' :=
  ⟨h'.names.trans h.names, h'.accounts.trans h.accounts⟩

theorem SameState.identity (h : SameState r r') : SameIdentity r r' := by
  obtain ⟨m, s, rfl⟩ := h.exists_withMode
  exact ⟨rfl, rfl⟩

theorem SameIdentity.mapStakers {f : Nat → QPStaker → QPStaker}
    (hf : ∀ nID s, (f nID s).sAlias = s.sAlias ∧ (f nID s).roleKeys = s.roleKeys)
    (h : r' = { r with mapStakers := r.mapStakers.map f, mapCertifiedNodes := r'.mapCertifiedNodes }) :
    SameIdentity r r' := by
  rw [h]
  constructor
  · rw [QPRegistry.names, QPRegistry.names, map_map_of_eq QPStaker.sAlias fun n s => (hf n s).1]
  · rw [QPRegistry.accounts, QPRegistry.accounts, map_map_of_eq QPStaker.roleKeys fun n s => (hf n s).2]

theorem sameIdentity_stakerMissedBlock (env : QPEnv) (r : QPRegistry) (nID : Nat) (nHeight : Int) :
    SameIdentity r (r.stakerMissedBlock env nID nHeight) := by
  rcases stakerMissedBlock_cases env r nID nHeight with ⟨-, heq⟩ | ⟨s, s', hs, -, heq, -, hs'⟩
  · rw [heq]
    exact ⟨rfl, rfl⟩
  · rw [heq]
    have hstaker : (r.pushPower nID s false).mapStakers[nID]? = some s := (getStakerInternal_eq_some.1 hs).2
    refine ⟨names_putStaker_same hstaker ?_, accounts_putStaker_same hstaker ?_⟩ <;>
      rcases hs' with rfl | rfl <;> rfl

theorem sameIdentity_passSlot (env : QPEnv) (p : CBlockIndex) (n : Nat) (r : QPRegistry) :
    SameIdentity r (r.passSlot env p n) := by
  rw [passSlot]
  split
  · exact ⟨rfl, rfl⟩
  · split
    · exact sameIdentity_stakerMissedBlock env r _ _
    · exact ⟨rfl, rfl⟩

theorem sameIdentity_crossFork (env : QPEnv) (nFork : Fork) (r : QPRegistry) :
    SameIdentity r (r.crossFork env nFork) := by
  obtain ⟨f, heq, hf⟩ := crossFork_eq env nFork r
  rw [heq]
  refine .mapStakers (fun n s => ?_) rfl
  rcases hf n s with h | h | ⟨-, h⟩ <;> rw [h] <;> exact ⟨rfl, rfl⟩

theorem sameIdentity_beforeAdvance (env : QPEnv) (nSnapshotType : SnapshotType) (p b : CBlockIndex)
    (db : SnapshotDB) (r : QPRegistry) : SameIdentity r (r.beforeAdvance env nSnapshotType p b db) :=
  (sameIdentity_crossFork env _ r).trans (sameState_takeSnapshot env nSnapshotType p db _).identity

theorem sameIdentity_sawBlockAll (r : QPRegistry) (q : QPQueue) :
    SameIdentity r (r.setQueue q).sawBlockAll.updateCertifiedNodesList := by
  have hsaw : SameIdentity (r.setQueue q) (r.setQueue q).sawBlockAll.updateCertifiedNodesList := by
    refine .mapStakers (f := fun _ s => if s.isQualified then s.sawBlock else s) (fun _ s => ?_) rfl
    split <;> exact ⟨rfl, rfl⟩
  exact ⟨hsaw.names, hsaw.accounts⟩

end QPRegistry

end Stealth

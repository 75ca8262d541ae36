import Stealth.Qpos.Persistent
import Stealth.Qpos.Names

/-! The owners of characters: a purchase that is applied adds one, and nothing takes one away. -/

namespace Stealth.QPRegistry

variable {r r' : QPRegistry} {k : Nat} {env : QPEnv} {b : CBlockIndex} {now : Int}

def owners (r : QPRegistry) : Map Nat Nat × Map Nat Nat := (r.mapNftOwners, r.mapNftOwnerLookup)

theorem owners_of_names (h : r'.names = r.names) : r'.owners = r.owners := by
  have howners := congrArg (fun n : Names => (n.mapNftOwners, n.mapNftOwnerLookup)) h
  exact howners

theorem SameData.owners (h : SameData r r') : r'.owners = r.owners := by
  obtain ⟨x, o, o', rfl, rfl⟩ := h.exists_override
  rfl

/-- The characters with an owner increase by a number, in both maps. -/
structure Gains (k : Nat) (r r' : QPRegistry) : Prop where
  owners : r'.mapNftOwners.size = r.mapNftOwners.size + k
  lookup : r'.mapNftOwnerLookup.size = r.mapNftOwnerLookup.size + k

theorem gains_of_owners_eq (h : r'.owners = r.owners) : Gains 0 r r' where
  owners := congrArg Std.ExtTreeMap.size (congrArg Prod.fst h)
  lookup := congrArg Std.ExtTreeMap.size (congrArg Prod.snd h)

theorem Gains.trans {k' : Nat} {r'' : QPRegistry} (h : Gains k r r') (h' : Gains k' r' r'') :
    Gains (k + k') r r'' where
  owners := by rw [h'.owners, h.owners, Nat.add_assoc]
  lookup := by rw [h'.lookup, h.lookup, Nat.add_assoc]

theorem Gains.of_owners_eq {s s' : QPRegistry} (h : Gains k r r') (hr : r.owners = s.owners)
    (hr' : s'.owners = r'.owners) : Gains k s s' := by
  have hgain := ((gains_of_owners_eq hr).trans h).trans (gains_of_owners_eq hr')
  rwa [Nat.zero_add] at hgain

theorem size_insert_of_none {m : Map Nat Nat} (h : m[k]? = none) (v : Nat) :
    (m.insert k v).size = m.size + 1 := by
  rw [Std.ExtTreeMap.size_insert, if_neg]
  rw [← Std.ExtTreeMap.isSome_getElem?_eq_contains, h]
  exact Bool.false_ne_true

theorem gains_applyPurchase {deet : QPTxDetails}
    (h : r.applyPurchase env deet b = .ok r') : Gains 1 r r' := by
  obtain ⟨-, nNftID, hvacant, hnames⟩ := applyPurchase_ok h
  have howners := congrArg (fun n : Names => n.mapNftOwners.size) hnames
  have hlookup := congrArg (fun n : Names => n.mapNftOwnerLookup.size) hnames
  exact ⟨howners.trans (size_insert_of_none hvacant.staker _),
    hlookup.trans (size_insert_of_none hvacant.nft _)⟩

theorem gains_applyOp {deet : QPTxDetails} (h : r.applyOp env now b deet = .ok r') :
    Gains (if isPurchase deet then 1 else 0) r r' := by
  cases hdeet : isPurchase deet with
  | true =>
    rw [applyOp_purchase hdeet] at h
    exact gains_applyPurchase h
  | false => exact gains_of_owners_eq (owners_of_names (editsStaker_applyOp hdeet h).names)

theorem gains_applyOps :
    ∀ {deets : List QPTxDetails} {r r' : QPRegistry}, r.applyOps env now b deets = .ok r' →
      Gains (deets.countP isPurchase) r r'
  | [], _, _, h => by
    cases h
    exact gains_of_owners_eq rfl
  | deet :: rest, r, r', h => by
    rw [applyOps] at h
    split at h
    · cases h
    · next r₁ hop =>
      rw [List.countP_cons, Nat.add_comm]
      exact (gains_applyOp hop).trans (gains_applyOps h)

def blockPurchases (env : QPEnv) (b : CBlockIndex) : Nat :=
  if Fork.purchase ≤ getFork env.fTestNet b.nHeight then b.vDeets.countP isPurchase else 0

theorem gains_updateOnNewBlock {nSnapshotType : SnapshotType}
    {fJustCheck : Bool} {p : CBlockIndex} {db : SnapshotDB}
    (h : (r.updateOnNewBlock env now nSnapshotType fJustCheck p b db).2 = (r', .accepted)) :
    Gains (blockPurchases env b) r r' := by
  obtain ⟨-, hfin⟩ := updateOnNewBlock_accepted h
  obtain ⟨r₁, r₂, hops, hprod, rfl⟩ := finishBlock_accepted hfin
  have hbefore := owners_of_names ((names_advanceTime env b.nTime p _).trans
    (sameIdentity_beforeAdvance env nSnapshotType p b db r).names)
  have hafter := owners_of_names (names_produceBlock hprod)
  refine Gains.of_owners_eq ?_ hbefore hafter
  have hok := applyBlockOps_ok hops
  rw [blockPurchases]
  split at hok
  · next hfork =>
    rw [if_pos hfork]
    exact gains_applyOps hok
  · next hfork =>
    rw [if_neg hfork, hok]
    exact gains_of_owners_eq rfl

end Stealth.QPRegistry

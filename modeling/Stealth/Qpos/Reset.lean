import Stealth.Qpos.Rewound

/-!
`SetNull` resets every field except the owners of characters, and `CopyInternal` takes over every field
except the certified nodes.
-/

namespace Stealth.QPRegistry

open Tally

def Event.purchases (env : QPEnv) : Event → Nat
  | .time _ _ _ _ => 0
  | .block _ _ _ _ pindex _ => blockPurchases env pindex

theorem gains_respond {env : QPEnv} {r r₁ : QPRegistry} {e : Event}
    (h : r.respond env e = (r₁, .accepted)) : Gains (e.purchases env) r r₁ := by
  cases e with
  | time nTime p nSnapshotType db =>
    rw [respond, updateOnNewTimeInternal] at h
    split at h
    · next r' hadv =>
      cases h
      have hsnap := (sameState_takeSnapshot env nSnapshotType p db r).identity.names
      have htime := names_advanceTime env nTime p (r.takeSnapshot env nSnapshotType p db).2
      have hend := congrArg Prod.fst hadv
      dsimp only at hend
      rw [hend] at htime
      exact gains_of_owners_eq (owners_of_names (htime.trans hsnap))
    · cases h
  | block now nSnapshotType fJustCheck p b db => exact gains_updateOnNewBlock h

/-- Replays of the same events that are accepted throughout add the same number of owners. -/
theorem gains_respondAll {env : QPEnv} : ∀ {es : List Event} {r s : QPRegistry},
    (∀ v ∈ (respondAll env r es).2, v = .accepted) → (∀ v ∈ (respondAll env s es).2, v = .accepted) →
      ∃ k, Gains k r (respondAll env r es).1 ∧ Gains k s (respondAll env s es).1
  | [], _, _, _, _ => ⟨0, gains_of_owners_eq rfl, gains_of_owners_eq rfl⟩
  | e :: es, r, s, hr, hs => by
    obtain ⟨hre, hrest⟩ := List.forall_mem_cons.1 hr
    obtain ⟨hse, hsest⟩ := List.forall_mem_cons.1 hs
    obtain ⟨k, hk, hk'⟩ := gains_respondAll hrest hsest
    exact ⟨_, (gains_respond (Prod.ext rfl hre)).trans hk, (gains_respond (Prod.ext rfl hse)).trans hk'⟩

/-- A reset registry is as good as a new one exactly if nobody owned a character. Otherwise no replay of
accepted blocks leads both to the same data. -/
theorem respondAll_setNull_iff (env : QPEnv) (r : QPRegistry) :
    ((∀ es, respondAll env (r.setNull env) es = respondAll env (empty env) es) ↔
      r.mapNftOwners = ∅ ∧ r.mapNftOwnerLookup = ∅) ∧
    ∀ es, (∀ v ∈ (respondAll env (r.setNull env) es).2, v = .accepted) →
      (∀ v ∈ (respondAll env (empty env) es).2, v = .accepted) →
      ((respondAll env (r.setNull env) es).1.serialize = (respondAll env (empty env) es).1.serialize ↔
        r.mapNftOwners = ∅ ∧ r.mapNftOwnerLookup = ∅) := by
  have hsame : r.mapNftOwners = ∅ ∧ r.mapNftOwnerLookup = ∅ → r.setNull env = empty env := by
    rintro ⟨howners, hlookup⟩
    exact setNull_of_owners env (by rw [owners, howners, hlookup])
  have hdata : ∀ es, (∀ v ∈ (respondAll env (r.setNull env) es).2, v = .accepted) →
      (∀ v ∈ (respondAll env (empty env) es).2, v = .accepted) →
      (respondAll env (r.setNull env) es).1.serialize = (respondAll env (empty env) es).1.serialize →
      r.mapNftOwners = ∅ ∧ r.mapNftOwnerLookup = ∅ := by
    intro es hreset hnew heq
    obtain ⟨k, hk, hk'⟩ := gains_respondAll hreset hnew
    have howners := congrArg (fun d : Serialized => d.mapNftOwners.size) heq
    have hlookup := congrArg (fun d : Serialized => d.mapNftOwnerLookup.size) heq
    have hzero : r.mapNftOwners.size + k = 0 + k := hk.owners.symm.trans (howners.trans hk'.owners)
    have hzero' : r.mapNftOwnerLookup.size + k = 0 + k := hk.lookup.symm.trans (hlookup.trans hk'.lookup)
    exact ⟨Std.ExtTreeMap.eq_empty_iff_size_eq_zero.2 (by omega),
      Std.ExtTreeMap.eq_empty_iff_size_eq_zero.2 (by omega)⟩
  refine ⟨⟨fun h => ?_, fun h es => by rw [hsame h]⟩, fun es hreset hnew =>
    ⟨hdata es hreset hnew, fun h => by rw [hsame h]⟩⟩
  exact hdata [] (by simp [respondAll]) (by simp [respondAll]) (by rw [h []])

def purchaseEvents : List Event :=
  [.block 0 .noSnaps false (soloBlock 3657599) (soloBlock 3657600) ∅]

/-- The registry of a first purchase, once it is reset, does not take that purchase again: the
identifier of the staker owns a character already. -/
theorem purchase_after_setNull : (respondAll mainEnv (empty mainEnv) purchaseEvents).2 = [.accepted] ∧
      (respondAll mainEnv ((respondAll mainEnv (empty mainEnv) purchaseEvents).1.setNull mainEnv)
        purchaseEvents).2 = [.exited] :=
  ⟨by decide +kernel, by decide +kernel⟩

def copyInternal (r pother : QPRegistry) : QPRegistry :=
  { pother with mapCertifiedNodes := r.mapCertifiedNodes }

/-- A copy into a registry that stays out of replay mode, as `AddToBlockIndex` and `ProcessBlock` make
it. -/
def takeOver (r pother : QPRegistry) : QPRegistry :=
  if r.isInReplayMode then r.copyInternal pother else (r.copyInternal pother).exitReplayModeInternal

def certifiedNode (s : QPStaker) : Option Bytes :=
  if s.isDisqualified then none else s.mapMeta[metaKeyCertifiedNode]?

/-- The list has the qualified stakers with a value for `certified_node`. -/
def CertifiesNodes (r : QPRegistry) : Prop :=
  ∀ (nID : Nat) (sValue : Bytes), r.mapCertifiedNodes[nID]? = some sValue ↔
    ∃ s, r.mapStakers[nID]? = some s ∧ s.isDisqualified = false ∧
      s.mapMeta[metaKeyCertifiedNode]? = some sValue

theorem certifiesNodes_updateCertifiedNodesList (r : QPRegistry) :
    CertifiesNodes r.updateCertifiedNodesList := by
  have hfold : r.updateCertifiedNodesList.mapCertifiedNodes =
      r.mapStakers.toList.foldl (fun m e => (certifiedNode e.2).elim m (m.insert e.1)) ∅ := by
    refine congrArg (fun f => r.mapStakers.toList.foldl f ∅) (funext fun m => funext fun e => ?_)
    rw [certifiedNode]
    split
    · rfl
    · cases e.2.mapMeta[metaKeyCertifiedNode]? <;> rfl
  intro nID sValue
  rw [hfold]
  refine (getElem?_foldl_insert (g := fun _ => certifiedNode) Std.ExtTreeMap.distinct_keys_toList
    (by simp)).trans ?_
  simp only [mem_toList_iff_getElem?_eq_some, getElem?_empty, reduceCtorEq,
    false_or]
  refine exists_congr fun s => and_congr_right fun _ => ?_
  cases hs : s.isDisqualified <;> simp [certifiedNode, hs]

theorem CertifiesNodes.iff_of_stakers {r r' : QPRegistry} (h : CertifiesNodes r)
    (hstakers : r'.mapStakers = r.mapStakers) :
    CertifiesNodes r' ↔ r'.mapCertifiedNodes = r.mapCertifiedNodes := by
  refine ⟨fun h' => ?_, fun heq => ?_⟩
  · refine ext_getElem? fun nID => Option.ext fun sValue => ?_
    exact (h' nID sValue).trans (by rw [hstakers]; exact (h nID sValue).symm)
  · intro nID sValue
    rw [heq, hstakers]
    exact h nID sValue

theorem takeOver_frame (r pother : QPRegistry) : (r.takeOver pother).mapStakers = pother.mapStakers ∧
      (r.takeOver pother).mapCertifiedNodes = r.mapCertifiedNodes := by
  rw [takeOver]
  split <;> exact ⟨rfl, rfl⟩

theorem checkSynced_frame (env : QPEnv) (now : Int) (r : QPRegistry) :
    (r.checkSynced env now).mapStakers = r.mapStakers ∧
      (r.checkSynced env now).mapCertifiedNodes = r.mapCertifiedNodes := by
  rw [checkSynced]
  split <;> exact ⟨rfl, rfl⟩

theorem certifiesNodes_updateOnNewBlock {env : QPEnv} {now : Int} {nSnapshotType : SnapshotType}
    {fJustCheck : Bool} {p b : CBlockIndex} {db : SnapshotDB} {r r' : QPRegistry}
    (h : (r.updateOnNewBlock env now nSnapshotType fJustCheck p b db).2 = (r', .accepted))
    (hfork : Fork.qpos ≤ getFork env.fTestNet b.nHeight) : CertifiesNodes r' := by
  obtain ⟨r₁, r₂, -, hprod, rfl⟩ := finishBlock_accepted (updateOnNewBlock_accepted h).2
  obtain ⟨-, -, r₃, -, rfl⟩ := produceBlock_ok hfork hprod
  exact certifiesNodes_updateCertifiedNodesList _

/-- A copy answers and goes on as the registry it was made of exactly if the two lists of certified nodes
were the same, though its verdicts and data never differ. A block is applied to a temporary registry that
two copies bring into the main one, so the main list is that of the block exactly if it was before. -/
theorem copyInternal_iff (env : QPEnv) (r pother : QPRegistry) :
    ((∀ es, respondAll env (r.copyInternal pother) es = respondAll env pother es) ↔
      r.mapCertifiedNodes = pother.mapCertifiedNodes) ∧
    (∀ es, (respondAll env (r.copyInternal pother) es).2 = (respondAll env pother es).2 ∧
      (respondAll env (r.copyInternal pother) es).1.serialize =
        (respondAll env pother es).1.serialize) ∧
    ∀ now nSnapshotType fJustCheck p b db temp main,
      (pother.updateOnNewBlock env now nSnapshotType fJustCheck p b db).2.2 = .accepted →
      Fork.qpos ≤ getFork env.fTestNet b.nHeight →
      let updated := (pother.updateOnNewBlock env now nSnapshotType fJustCheck p b db).2.1
      CertifiesNodes updated ∧
        (CertifiesNodes ((takeOver main (takeOver temp updated)).checkSynced env now) ↔
          main.mapCertifiedNodes = updated.mapCertifiedNodes) := by
  refine ⟨⟨fun h => ?_, fun h es => ?_⟩, fun es => ?_, ?_⟩
  · exact congrArg (fun x : QPRegistry × List Verdict => x.1.mapCertifiedNodes) (h [])
  · rw [copyInternal, h]
  · have halike : Alike (r.copyInternal pother) pother := ⟨rfl, rfl⟩
    obtain ⟨hend, hverdicts⟩ := halike.respondAll env es
    exact ⟨hverdicts, hend.data⟩
  · intro now nSnapshotType fJustCheck p b db temp main hverdict hfork
    dsimp only
    set updated := (pother.updateOnNewBlock env now nSnapshotType fJustCheck p b db).2.1
    have hlist : CertifiesNodes updated := certifiesNodes_updateOnNewBlock (Prod.ext rfl hverdict) hfork
    obtain ⟨hstakers, hnodes⟩ := takeOver_frame main (takeOver temp updated)
    obtain ⟨hsynced, hsyncedNodes⟩ := checkSynced_frame env now (takeOver main (takeOver temp updated))
    refine ⟨hlist, (hlist.iff_of_stakers ?_).trans ?_⟩
    · rw [hsynced, hstakers, (takeOver_frame temp updated).1]
    · rw [hsyncedNodes, hnodes]

def certifyBlock : CBlockIndex :=
  { soloBlock 3695101 with
    vDeets := [{ t := .setMeta, id := 1, metaKey := metaKeyCertifiedNode,
                 metaValue := [49, 46, 50, 46, 51, 46, 52] }] }

/-- The block is accepted and the updated registry lists the node, but the main registry does not. -/
theorem certified_node_not_copied :
    ∃ main updated, replay mainEnv blockClock (soloChain 3695100) = some main ∧
      (main.updateOnNewBlock mainEnv 0 .noSnaps false (soloBlock 3695100) certifyBlock ∅).2 =
        (updated, .accepted) ∧
      updated.mapCertifiedNodes[1]? = some [49, 46, 50, 46, 51, 46, 52] ∧
      ¬ CertifiesNodes ((takeOver main (takeOver main updated)).checkSynced mainEnv 0) := by
  obtain ⟨main, hmain, hverdict, hlisted, hnone⟩ : ∃ main, replay mainEnv blockClock (soloChain 3695100) = some main ∧
      let x := (main.updateOnNewBlock mainEnv 0 .noSnaps false (soloBlock 3695100) certifyBlock ∅).2
      x.2 = .accepted ∧ x.1.mapCertifiedNodes[1]? = some [49, 46, 50, 46, 51, 46, 52] ∧
        main.mapCertifiedNodes[1]? = none := exists_replay_soloQpos (by decide +kernel)
  generalize hx : (main.updateOnNewBlock mainEnv 0 .noSnaps false (soloBlock 3695100) certifyBlock ∅).2 =
    x at hverdict hlisted
  obtain ⟨updated, verdict⟩ := x
  cases hverdict
  refine ⟨main, updated, hmain, hx, hlisted, fun h => ?_⟩
  have hlist := certifiesNodes_updateOnNewBlock hx (by decide)
  obtain ⟨hstakers, hnodes⟩ := takeOver_frame main (takeOver main updated)
  obtain ⟨hsynced, hsyncedNodes⟩ := checkSynced_frame mainEnv 0 (takeOver main (takeOver main updated))
  have heq := (hlist.iff_of_stakers (by rw [hsynced, hstakers, (takeOver_frame main updated).1])).1 h
  rw [hsyncedNodes, hnodes] at heq
  rw [heq, hlisted] at hnone
  cases hnone

end Stealth.QPRegistry

import Stealth.Qpos.Identity
import Stealth.Qpos.Dock

/-!
The registry keeps reward accounts: on the main network every update acts like a list of account operations.
-/

namespace Stealth

open Tally Loop

variable {r r' : QPRegistry} {nID : Nat} {s : QPStaker} {env : QPEnv} {p b : CBlockIndex}
  {deet : QPTxDetails} {now : Int}

namespace QPRegistry

theorem accounts_checkPower (env : QPEnv) (r : QPRegistry) : (r.checkPower env).accounts = r.accounts := by
  obtain ⟨f, m, h⟩ := checkPower_frame env r
  rw [h]
  rfl

theorem accounts_newQueue {nTime0 : UInt32} {prevHash : Uint256}
    (h : r.newQueue env nTime0 prevHash = some r') : r'.accounts = r.accounts := by
  rw [newQueue] at h
  split at h
  · cases h
  · cases h
    rfl

theorem accounts_endRound (r : QPRegistry) (nMoneySupply : Int) :
    (r.endRound nMoneySupply).accounts = r.accounts.apply (.endRound (dockValue nMoneySupply)) := by
  have hinactive : ∀ key, r.accounts.isInactive key = true ↔ r.IsInactive key := by
    intro key
    rw [Accounts.isInactive, IsInactive, Option.any_eq_true]
    simp only [decide_eq_true_eq]
    exact Iff.rfl
  have hdock : ∀ key : CPubKey, (r.dockInactiveKeys nMoneySupply).mapBalances[key]? =
      (r.accounts.dock (dockValue nMoneySupply)).balances[key]? := by
    intro key
    rw [dockInactiveKeys_getElem?, Accounts.dock]
    simp only [getElem?_map, hinactive]
    split
    · rfl
    · exact (Option.map_id' ..).symm
  have hlow : ∀ key, key ∈ r.purgedKeys nMoneySupply ↔
      (r.accounts.dock (dockValue nMoneySupply)).isLow (dockValue nMoneySupply) key = true := by
    intro key
    rw [mem_purgedKeys, Accounts.isLow, Bool.and_eq_true, Option.any_eq_true, ← hdock key]
    simp only [decide_eq_true_eq]
    constructor
    · rintro ⟨b, hb, hlt, hc⟩
      exact ⟨⟨b, hb, hlt⟩, hc⟩
    · rintro ⟨⟨b, hb, hlt⟩, hc⟩
      exact ⟨b, hb, hlt, hc⟩
  have hfilter : ∀ (m : Option Int) (key : CPubKey),
      (if key ∈ r.purgedKeys nMoneySupply then none else m) = m.filter fun _ =>
        !(r.accounts.dock (dockValue nMoneySupply)).isLow (dockValue nMoneySupply) key := by
    intro m key
    by_cases hkey : key ∈ r.purgedKeys nMoneySupply
    · rw [if_pos hkey, (hlow key).1 hkey]
      cases m <;> rfl
    · rw [if_neg hkey, Bool.eq_false_iff.2 fun h => hkey ((hlow key).2 h)]
      cases m <;> rfl
  refine Accounts.ext rfl (ext_getElem? fun key => ?_) rfl
    (ext_getElem? fun key => ?_)
  · refine (endRound_mapBalances r nMoneySupply key).trans ?_
    rw [hfilter, hdock, Accounts.apply, Accounts.purge]
    dsimp only
    rw [Std.ExtTreeMap.getElem?_filter']
  · refine (endRound_mapActive r nMoneySupply key).trans ?_
    rw [hfilter, Accounts.apply, Accounts.purge]
    dsimp only
    rw [Std.ExtTreeMap.getElem?_filter']
    rfl

def slotLog (p : CBlockIndex) (s : QPRegistry × Nat) : List (AccountOp CPubKey) :=
  match s.1.queue.incrementSlot with
  | some _ => []
  | none => [.endRound (dockValue p.nMoneySupply)]

def advanceLog (env : QPEnv) (nTime : UInt32) (p : CBlockIndex) (r : QPRegistry) :
    List (AccountOp CPubKey) :=
  if Fork.qpos ≤ getFork env.fTestNet (p.nHeight + 1) then
    match r.startQueue env p with
    | none => []
    | some s =>
      (visited (slotHasPassed nTime) (advanceSlot env p) advanceFuel s).flatMap (slotLog p)
  else []

theorem accounts_advanceSlot_ok {s s' : QPRegistry × Nat}
    (h : advanceSlot env p s = .ok s') : s'.1.accounts = s.1.accounts.run (slotLog p s) := by
  rcases advanceSlot_ok h with ⟨q, hq, rfl⟩ | ⟨r, hq, hr, rfl⟩
  · rw [passSlot_queue] at hq
    rw [slotLog, hq, accounts_checkPower]
    exact (sameIdentity_passSlot env p s.2 s.1).accounts
  · rw [passSlot_queue] at hq
    rw [slotLog, hq, accounts_checkPower]
    change r.accounts = s.1.accounts.apply (.endRound (dockValue p.nMoneySupply))
    rw [accounts_newQueue hr, accounts_endRound, (sameIdentity_passSlot ..).accounts]

theorem accounts_advanceSlot_error {s : QPRegistry × Nat} (h : advanceSlot env p s = .error r) :
    r.accounts = s.1.accounts.run (slotLog p s) := by
  obtain ⟨hq, -, rfl⟩ := advanceSlot_error h
  rw [passSlot_queue] at hq
  rw [slotLog, hq]
  change _ = s.1.accounts.apply (.endRound (dockValue p.nMoneySupply))
  rw [accounts_endRound, (sameIdentity_passSlot ..).accounts]

theorem accounts_advanceTime (env : QPEnv) (nTime : UInt32) (p : CBlockIndex) (r : QPRegistry) :
    (r.advanceTime env nTime p).1.accounts = r.accounts.run (advanceLog env nTime p r) := by
  have h := @advanceTime_ghost r env p nTime _ (fun a r' => r'.accounts = a) (fun a s => a.run (slotLog p s))
    r.accounts r.accounts rfl
    (fun x => startQueue_rule (P := fun r' => r'.accounts = r.accounts) rfl fun _ => accounts_newQueue)
    (fun _ _ _ hx hy => hx ▸ accounts_advanceSlot_ok hy) fun _ _ _ hx he => hx ▸ accounts_advanceSlot_error he
  rw [h, advanceLog]
  split
  · cases r.startQueue env p with
    | none => rfl
    | some s => rw [Accounts.run, List.foldl_flatMap]; rfl
  · rfl

theorem mem_advanceLog {nTime : UInt32} {op : AccountOp CPubKey} (hop : op ∈ advanceLog env nTime p r) :
    op = .endRound (dockValue p.nMoneySupply) := by
  rw [advanceLog] at hop
  split at hop
  · split at hop
    · cases hop
    · obtain ⟨s, -, hs⟩ := List.mem_flatMap.1 hop
      rw [slotLog] at hs
      split at hs
      · cases hs
      · exact List.mem_singleton.1 hs
  · cases hop

theorem allAllowed_advanceLog (env : QPEnv) (nTime : UInt32) (p : CBlockIndex) (r : QPRegistry) :
    ∀ a : Accounts CPubKey, a.AllAllowed (advanceLog env nTime p r) := by
  have hops : ∀ op ∈ advanceLog env nTime p r, op = .endRound (dockValue p.nMoneySupply) :=
    fun _ => mem_advanceLog
  generalize advanceLog env nTime p r = ops at hops
  induction ops with
  | nil => intro a; trivial
  | cons op ops ih =>
    intro a
    obtain ⟨rfl, hrest⟩ := List.forall_mem_cons.1 hops
    exact ⟨trivial, ih hrest _⟩

def opLog (b : CBlockIndex) (r : QPRegistry) (deet : QPTxDetails) : List (AccountOp CPubKey) :=
  match deet.t, deet.keys with
  | .purchase1, _ | .purchase4, _ =>
    match stakerOfPurchase deet with
    | none => []
    | some s => [.register (r.nIDCounter + 1) s.pubkeyManager s.pubkeyDelegate b.nTime.toNat]
  | .setManager, [key] => [.setManager deet.id key b.nTime.toNat]
  | .setDelegate, [key] => [.setDelegate deet.id key b.nTime.toNat]
  | .claim, [key] => [.claim key deet.value b.nTime.toNat]
  | _, _ => []

def opsLog (env : QPEnv) (now : Int) (b : CBlockIndex) :
    QPRegistry → List QPTxDetails → List (AccountOp CPubKey)
  | _, [] => []
  | r, deet :: rest =>
    opLog b r deet ++
      match r.applyOp env now b deet with
      | .error _ => []
      | .ok r' => opsLog env now b r' rest

/-- An update of the registry acts on its accounts as a list of account operations. -/
def Books (r r' : QPRegistry) (ops : List (AccountOp CPubKey)) : Prop :=
  r.accounts.AllAllowed ops ∧ r'.accounts = r.accounts.run ops

theorem Books.nil (h : r'.accounts = r.accounts) : Books r r' [] := ⟨trivial, h⟩

theorem Books.single {op : AccountOp CPubKey} (hop : r.accounts.Allowed op)
    (h : r'.accounts = r.accounts.apply op) : Books r r' [op] := ⟨⟨hop, trivial⟩, h⟩

theorem Books.append {r'' : QPRegistry} {ops ops' : List (AccountOp CPubKey)}
    (h : Books r r' ops) (h' : Books r' r'' ops') : Books r r'' (ops ++ ops') := by
  constructor
  · exact Accounts.allAllowed_append.2 ⟨h.1, h.2 ▸ h'.1⟩
  · rw [h'.2, h.2, Accounts.run, Accounts.run, Accounts.run, List.foldl_append]

theorem accounts_assignNft
    {sKey : Bytes} (h : r.assignNft env nID deet sKey = .ok r') : r'.accounts = r.accounts := by
  have hnft := nicknamed_assignNft env r nID deet sKey
  rw [h] at hnft
  obtain ⟨owners, lookup, rfl | ⟨s, sAlias, hs, rfl⟩⟩ := hnft
  · rfl
  · exact accounts_putStaker_same (s := s) hs rfl

theorem accounts_deactivatePubKey {key : CPubKey}
    (h : r.deactivatePubKey key = some r') : r'.accounts = r.accounts.deactivate key := by
  rw [deactivatePubKey] at h
  split at h
  · cases h
  · next n hn =>
    split at h
    · cases h
    · cases h
      rw [Accounts.deactivate, Accounts.activeCount, getD_eq_getD_getElem?,
        show r.accounts.active[key]? = some n from hn]
      rfl

theorem accounts_moveReference {keyOld keyNew : CPubKey} (h : r.moveReference keyOld keyNew b = some r') :
    r'.accounts = r.accounts.move keyOld keyNew b.nTime.toNat := by
  rw [moveReference] at h
  rw [Accounts.move]
  split at h
  · next heq =>
    cases h
    rw [if_pos heq]
  · next hne =>
    obtain ⟨r₁, hr₁, rfl⟩ := Option.map_eq_some_iff.1 h
    rw [if_neg hne, ← accounts_deactivatePubKey hr₁]
    rfl

theorem mem_roles (h : r.mapStakers[nID]? = some s) : nID ∈ r.accounts.roles :=
  Tally.mem_of_getElem? (roles_getElem? h)

theorem roleKeys_setDelegatePayout (s : QPStaker) (pcm : Int) :
    (s.setDelegatePayout pcm).1.roleKeys = s.roleKeys := by
  rw [QPStaker.setDelegatePayout]
  split <;> rfl

theorem accounts_applySetState {nHeight : Int}
    (h : r.applySetState env deet nHeight = .ok r') : r'.accounts = r.accounts := by
  rw [applySetState] at h
  split at h
  · cases h
  · next s hs =>
    split at h
    · cases h
    · split at h
      · split at h
        · split at h
          · cases h
          · next s' hs' =>
            cases h
            refine accounts_putStaker_same hs ?_
            rw [QPStaker.enable] at hs'
            split at hs'
            · cases hs'
            · cases hs'
              rfl
        · cases h
          rfl
      · split at h
        · cases h
          exact accounts_putStaker_same hs rfl
        · cases h

theorem accounts_applySetMeta (h : r.applySetMeta deet = .ok r') : r'.accounts = r.accounts := by
  rw [applySetMeta] at h
  split at h
  · cases h
  · split at h
    · cases h
    · next s hs =>
      split at h
      · cases h
      · cases h
        exact accounts_putStaker_same hs rfl

section MainNet

variable {env : QPEnv} (hmain : env.fTestNet = false)

include hmain

theorem books_applyPurchase (hids : IdsInOrder r) (ht : deet.t = .purchase1 ∨ deet.t = .purchase4)
    (h : r.applyPurchase env deet b = .ok r') : Books r r' (opLog b r deet) := by
  rw [applyPurchase] at h
  split at h
  · cases h
  · next s hs =>
    split at h
    · cases h
    · next sKey _ =>
      dsimp only at h
      split at h
      · cases h
      · next r₁ hnft =>
        have hlog : opLog b r deet =
            [.register (r.nIDCounter + 1) s.pubkeyManager s.pubkeyDelegate b.nTime.toNat] := by
          rcases ht with ht | ht <;> simp only [opLog, ht, hs]
        rw [if_neg fun htest => Bool.false_ne_true (hmain.symm.trans htest.1)] at h
        cases h
        rw [hlog]
        refine Books.single (fun hmem => ?_) ?_
        · obtain ⟨t, ht⟩ := mem_iff_isSome_getElem?.1 (Std.ExtTreeMap.mem_map.1 hmem)
            |> Option.isSome_iff_exists.1
          have := (hids _ t ht).2
          omega
        · have hput := accounts_putStaker { r with nIDCounter := r.nIDCounter + 1 }
            (r.nIDCounter + 1) s
          change (r₁.accounts.activate _ _).activate _ _ = _
          rw [accounts_assignNft hnft, hput]
          rfl

theorem books_applySetKey (h : r.applySetKey env deet b = .ok r') : Books r r' (opLog b r deet) := by
  rw [applySetKey] at h
  split at h
  · cases h
  · next s hs =>
    have hroles := roles_getElem? hs
    split at h
    · cases h
    · split at h
      · next keyNew hkeys =>
        split at h
        · next ht =>
          have hlog : opLog b r deet = [] := by simp only [opLog, ht]
          rw [hlog]
          cases h
          rw [moveOwnerReference, if_neg fun htest => Bool.false_ne_true (hmain.symm.trans htest.2)]
          exact .nil (accounts_putStaker_same hs rfl)
        · next ht =>
          have hlog : opLog b r deet = [.setManager deet.id keyNew b.nTime.toNat] := by
            simp only [opLog, ht, hkeys]
          rw [hlog]
          split at h
          · cases h
          · next r₁ hmove =>
            cases h
            refine Books.single (mem_roles hs) ?_
            rw [accounts_putStaker, accounts_moveReference hmove, Accounts.apply, hroles]
            rfl
        · next ht =>
          have hlog : opLog b r deet = [.setDelegate deet.id keyNew b.nTime.toNat] := by
            simp only [opLog, ht, hkeys]
          rw [hlog]
          have hkeys' := roleKeys_setDelegatePayout s deet.pcm
          generalize s.setDelegatePayout deet.pcm = pay at h hkeys'
          dsimp only at h
          split at h
          · cases h
          · split at h
            · cases h
            · next r₁ hmove =>
              cases h
              refine Books.single (mem_roles hs) ?_
              have hmanager : pay.1.pubkeyManager = s.pubkeyManager := congrArg Prod.fst hkeys'
              rw [accounts_putStaker, accounts_moveReference hmove, Accounts.apply, hroles,
                QPStaker.roleKeys, QPStaker.roleKeys]
              dsimp only
              rw [hmanager]
        · next ht =>
          have hlog : opLog b r deet = [] := by simp only [opLog, ht]
          rw [hlog]
          cases h
          exact .nil (accounts_putStaker_same hs rfl)
        · cases h
      · cases h

theorem books_applyClaim
    (h : r.applyClaim env now deet b.nTime.toNat = .ok r') : Books r r' (opLog b r deet) := by
  rw [applyClaim] at h
  split at h
  · cases h
  · next ht =>
    split at h
    · next key hkeys =>
      split at h
      · next hclaim =>
        have hlog : opLog b r deet = [.claim key deet.value b.nTime.toNat] := by
          simp only [opLog, not_ne_iff.1 ht, hkeys]
        rw [hlog]
        cases h
        refine Books.single ?_ rfl
        rw [canClaimInternal] at hclaim
        split at hclaim
        · cases hclaim
        · dsimp only at hclaim
          split at hclaim
          · cases hclaim
          · next n hn =>
            split at hclaim
            · cases hclaim
            · next hle =>
              refine ⟨⟨n, hn, Int.not_lt.1 hle⟩, fun hpos nLast hlast => ?_⟩
              rw [show r.mapLastClaim[key]? = some nLast from hlast, if_neg (Int.not_le.2 hpos),
                hmain] at hclaim
              simp only [Bool.false_or, Bool.not_eq_true', decide_eq_false_iff_not,
                Int.not_lt] at hclaim
              exact hclaim
      · cases h
    · cases h

theorem books_applyOp
    (hids : IdsInOrder r) (h : r.applyOp env now b deet = .ok r') : Books r r' (opLog b r deet) := by
  rw [applyOp] at h
  split at h
  · next ht => exact books_applyPurchase hmain hids (.inl ht) h
  · next ht => exact books_applyPurchase hmain hids (.inr ht) h
  · exact books_applySetKey hmain h
  · exact books_applySetKey hmain h
  · exact books_applySetKey hmain h
  · exact books_applySetKey hmain h
  · next ht =>
    rw [show opLog b r deet = [] by simp only [opLog, ht]]
    exact .nil (accounts_applySetState h)
  · next ht =>
    rw [show opLog b r deet = [] by simp only [opLog, ht]]
    exact .nil (accounts_applySetState h)
  · exact books_applyClaim hmain h
  · next ht =>
    rw [show opLog b r deet = [] by simp only [opLog, ht]]
    exact .nil (accounts_applySetMeta h)
  · cases h

theorem books_applyOps : ∀ {deets : List QPTxDetails} {r r' : QPRegistry},
    IdsInOrder r → r.applyOps env now b deets = .ok r' → Books r r' (opsLog env now b r deets)
  | [], r, r', _, h => by
    cases h
    exact .nil rfl
  | deet :: rest, r, r', hids, h => by
    rw [applyOps] at h
    split at h
    · cases h
    · next r₁ hop =>
      have hids' : IdsInOrder r₁ := by
        have hframe := opsFrame_applyOp env now b r deet
        rw [hop] at hframe
        exact hframe.ids hids
      rw [opsLog, hop]
      exact (books_applyOp hmain hids hop).append (books_applyOps hids' h)

end MainNet

end QPRegistry

end Stealth

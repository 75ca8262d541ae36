import Stealth.Qpos.Update

/-! What the operations of a block do to the registry, as elementary steps, and what these steps keep. -/

namespace Stealth

open Relation

variable {r r' : QPRegistry} {nID : Nat} {s s' : QPStaker} {env : QPEnv} {now : Int} {b : CBlockIndex}
  {deet : QPTxDetails} {key keyOld keyNew : CPubKey}

/-- The fields of a staker that no operation sets. -/
def QPStaker.EditOf (s s' : QPStaker) : Prop :=
  s' = { s with
    pubkeyOwner := s'.pubkeyOwner, pubkeyManager := s'.pubkeyManager
    pubkeyDelegate := s'.pubkeyDelegate, pubkeyController := s'.pubkeyController
    nPcmDelegatePayout := s'.nPcmDelegatePayout, nHeightDisabled := s'.nHeightDisabled
    sAlias := s'.sAlias, mapMeta := s'.mapMeta }

namespace QPRegistry

def Either (P : QPRegistry → Prop) : Except QPRegistry QPRegistry → Prop
  | .ok r => P r
  | .error r => P r

theorem Either.imp {P Q : QPRegistry → Prop} {x : Except QPRegistry QPRegistry} (h : Either P x)
    (himp : ∀ r, P r → Q r) : Either Q x := by
  cases x with
  | ok r => exact himp r h
  | error r => exact himp r h

inductive AccountStep (r : QPRegistry) : QPRegistry → Prop
  | activate (key : CPubKey) (b : CBlockIndex) : AccountStep r (r.activatePubKey key b)
  | deactivate {key : CPubKey} {r' : QPRegistry} (h : r.deactivatePubKey key = some r') :
      AccountStep r r'
  | claim (claims : Map CPubKey Int) (balances : Map CPubKey Int) :
      AccountStep r { r with mapLastClaim := claims, mapBalances := balances }

abbrev AccountSteps : QPRegistry → QPRegistry → Prop := ReflTransGen AccountStep

theorem deactivatePubKey_some (h : r.deactivatePubKey key = some r') :
    ∃ n, 1 ≤ n ∧ r' = { r with mapActive := r.mapActive.insert key (n - 1) } := by
  rw [deactivatePubKey] at h
  split at h
  · cases h
  · next n _ =>
    split at h
    · cases h
    · next hn => exact ⟨n, Int.not_lt.1 hn, (Option.some.inj h).symm⟩

def AccountsOnly (r r' : QPRegistry) : Prop :=
  r' = { r with
    mapBalances := r'.mapBalances, mapLastClaim := r'.mapLastClaim, mapActive := r'.mapActive }

theorem AccountStep.accountsOnly (h : AccountStep r r') : AccountsOnly r r' := by
  cases h with
  | activate key b => rfl
  | deactivate h =>
    obtain ⟨n, -, rfl⟩ := deactivatePubKey_some h
    rfl
  | claim claims balances => rfl

theorem AccountSteps.accountsOnly (h : AccountSteps r r') : AccountsOnly r r' := by
  induction h with
  | refl => rfl
  | tail _ hstep ih =>
    rw [hstep.accountsOnly, ih]
    rfl

theorem steps_moveReference (h : r.moveReference keyOld keyNew b = some r') : AccountSteps r r' := by
  rw [moveReference] at h
  split at h
  · cases h
    exact .refl
  · obtain ⟨r₁, hr₁, rfl⟩ := Option.map_eq_some_iff.1 h
    exact .tail (.single (.deactivate hr₁)) (.activate keyNew b)

theorem steps_moveOwnerReference (env : QPEnv) (r : QPRegistry) (keyOld keyNew : CPubKey)
    (b : CBlockIndex) : AccountSteps r (r.moveOwnerReference env keyOld keyNew b) := by
  have hgetD : AccountSteps r ((r.deactivatePubKey keyOld).getD r) := by
    cases h : r.deactivatePubKey keyOld with
    | none => exact .refl
    | some r' => exact .single (.deactivate h)
  rw [moveOwnerReference]
  dsimp only
  split
  · split
    · exact hgetD.tail (.activate keyNew b)
    · exact hgetD
  · exact .refl

/-- What an operation other than a purchase keeps of the staker that it names. -/
structure Edited (deet : QPTxDetails) (s s' : QPStaker) : Prop where
  sAlias : s'.sAlias = s.sAlias
  enabled : deet.t ≠ .disable → s.isEnabled = true → s'.isEnabled = true

/-- An operation other than a purchase moves references and sets fields of the staker that it names. -/
def Edits (deet : QPTxDetails) (r r' : QPRegistry) : Prop :=
  ∃ q, AccountSteps r q ∧ (r' = q ∨ ∃ s s', r.mapStakers[deet.id]? = some s ∧ s.EditOf s' ∧
    Edited deet s s' ∧ r' = q.putStaker deet.id s')

theorem Edits.refl (deet : QPTxDetails) (r : QPRegistry) : Edits deet r r := ⟨r, .refl, .inl rfl⟩

theorem Edits.put (hsteps : AccountSteps r r') (hs : r.mapStakers[deet.id]? = some s)
    (hof : s.EditOf s') (hedit : Edited deet s s') : Edits deet r (r'.putStaker deet.id s') :=
  ⟨r', hsteps, .inr ⟨s, s', hs, hof, hedit, rfl⟩⟩

theorem edits_applySetKey (env : QPEnv) (r : QPRegistry) (deet : QPTxDetails) (b : CBlockIndex) :
    Either (Edits deet r) (r.applySetKey env deet b) := by
  rw [applySetKey]
  split
  · exact .refl deet r
  · next s hs =>
    split
    · exact .refl deet r
    · split
      · next keyNew _ =>
        split
        · exact .put (steps_moveOwnerReference env r s.pubkeyOwner keyNew b) hs rfl
            ⟨rfl, fun _ hen => hen⟩
        · split
          · exact .refl deet r
          · next hmove => exact .put (steps_moveReference hmove) hs rfl ⟨rfl, fun _ hen => hen⟩
        · obtain ⟨pcm, hpay⟩ : ∃ pcm, (s.setDelegatePayout deet.pcm).1 =
              { s with nPcmDelegatePayout := pcm } := by
            rw [QPStaker.setDelegatePayout]
            split <;> exact ⟨_, rfl⟩
          dsimp only
          rw [hpay]
          split
          · exact .put .refl hs rfl ⟨rfl, fun _ hen => hen⟩
          · split
            · exact .put .refl hs rfl ⟨rfl, fun _ hen => hen⟩
            · next hmove => exact .put (steps_moveReference hmove) hs rfl ⟨rfl, fun _ hen => hen⟩
        · exact .put .refl hs rfl ⟨rfl, fun _ hen => hen⟩
        · exact .refl deet r
      · exact .refl deet r

theorem edits_applySetState (env : QPEnv) (r : QPRegistry) (deet : QPTxDetails) (nHeight : Int) :
    Either (Edits deet r) (r.applySetState env deet nHeight) := by
  rw [applySetState]
  split
  · exact .refl deet r
  · next s hs =>
    split
    · exact .refl deet r
    · split
      · split
        · split
          · exact .refl deet r
          · next s' hen =>
            rw [QPStaker.enable] at hen
            split at hen
            · cases hen
            · cases hen
              refine .put .refl hs rfl ⟨rfl, fun _ hs' => ?_⟩
              rw [QPStaker.isEnabled, Bool.and_eq_true] at hs' ⊢
              exact ⟨hs'.1, rfl⟩
        · exact .refl deet r
      · split
        · next hdisable => exact .put .refl hs rfl ⟨rfl, fun hne => absurd hdisable hne⟩
        · exact .refl deet r

theorem edits_applyClaim (env : QPEnv) (now : Int) (r : QPRegistry) (deet : QPTxDetails)
    (nBlockTime : Int) : Either (Edits deet r) (r.applyClaim env now deet nBlockTime) := by
  rw [applyClaim]
  split
  · exact .refl deet r
  · split
    · split
      · exact ⟨_, .single (.claim _ _), .inl rfl⟩
      · exact .refl deet r
    · exact .refl deet r

theorem edits_applySetMeta (r : QPRegistry) (deet : QPTxDetails) :
    Either (Edits deet r) (r.applySetMeta deet) := by
  rw [applySetMeta]
  split
  · exact .refl deet r
  · split
    · exact .refl deet r
    · next s hs =>
      split
      · exact .refl deet r
      · exact .put .refl hs rfl ⟨rfl, fun _ hen => hen⟩

def isPurchase (deet : QPTxDetails) : Bool :=
  match deet.t with
  | .purchase1 | .purchase4 => true
  | _ => false

theorem applyOp_purchase (hdeet : isPurchase deet = true) :
    r.applyOp env now b deet = r.applyPurchase env deet b := by
  rw [isPurchase] at hdeet
  rw [applyOp]
  split at hdeet
  · next ht => rw [ht]
  · next ht => rw [ht]
  · cases hdeet

theorem edits_applyOp (env : QPEnv) (now : Int) (b : CBlockIndex) (r : QPRegistry)
    (hdeet : isPurchase deet = false) : Either (Edits deet r) (r.applyOp env now b deet) := by
  rw [applyOp]
  rw [isPurchase] at hdeet
  split
  · next ht =>
    rw [ht] at hdeet
    cases hdeet
  · next ht =>
    rw [ht] at hdeet
    cases hdeet
  · exact edits_applySetKey env r deet b
  · exact edits_applySetKey env r deet b
  · exact edits_applySetKey env r deet b
  · exact edits_applySetKey env r deet b
  · exact edits_applySetState env r deet b.nHeight
  · exact edits_applySetState env r deet b.nHeight
  · exact edits_applyClaim env now r deet _
  · exact edits_applySetMeta r deet
  · exact .refl deet r

/-- What taking a character changes: who owns which character, and the alias of the staker. -/
def Nicknamed (nID : Nat) (r r' : QPRegistry) : Prop :=
  ∃ owners lookup, r' = { r with mapNftOwners := owners, mapNftOwnerLookup := lookup } ∨
    ∃ s sAlias, r.mapStakers[nID]? = some s ∧
      r' = { r with mapNftOwners := owners, mapNftOwnerLookup := lookup }.putStaker nID
        { s with sAlias := sAlias }

theorem nicknamed_takeNft (env : QPEnv) (r : QPRegistry) (nID nNftID : Nat) (sAlias : Bytes) :
    Either (Nicknamed nID r) (r.takeNft env nID nNftID sAlias) := by
  rw [takeNft]
  cases hn : r.setStakerNft env nID nNftID with
  | none => exact ⟨_, _, .inl rfl⟩
  | some r' =>
    rw [setStakerNft] at hn
    split_ifs at hn
    cases hn
    dsimp only
    rw [setAliasAt]
    dsimp only
    cases hs : r.mapStakers[nID]? with
    | none => exact ⟨_, _, .inl rfl⟩
    | some s =>
      dsimp only
      rw [QPStaker.setAlias]
      split_ifs
      · exact ⟨_, _, .inl rfl⟩
      · exact ⟨_, _, .inr ⟨s, sAlias, hs, rfl⟩⟩

theorem nicknamed_assignNft (env : QPEnv) (r : QPRegistry) (nID : Nat) (deet : QPTxDetails)
    (sKey : Bytes) : Either (Nicknamed nID r) (r.assignNft env nID deet sKey) := by
  have hrefl : Nicknamed nID r r := ⟨_, _, .inl rfl⟩
  rw [assignNft]
  split
  · split
    · exact hrefl
    · split
      · exact hrefl
      · exact nicknamed_takeNft ..
  · split
    · split
      · exact hrefl
      · exact nicknamed_takeNft ..
    · split
      · exact hrefl
      · exact nicknamed_takeNft ..

inductive OpStep (r : QPRegistry) : QPRegistry → Prop
  | account {r' : QPRegistry} (h : AccountStep r r') : OpStep r r'
  | names (aliases : Map Bytes (Nat × Bytes)) (owners lookup : Map Nat Nat) : OpStep r { r with
      mapAliases := aliases, mapNftOwners := owners, mapNftOwnerLookup := lookup }
  | edit {nID : Nat} {s s' : QPStaker} (hs : r.mapStakers[nID]? = some s) (h : s.EditOf s') :
      OpStep r (r.putStaker nID s')
  | add {deet : QPTxDetails} {s : QPStaker} (h : stakerOfPurchase deet = some s) :
      OpStep r ({ r with nIDCounter := r.nIDCounter + 1 }.putStaker (r.nIDCounter + 1) s)

abbrev OpSteps : QPRegistry → QPRegistry → Prop := ReflTransGen OpStep

theorem AccountSteps.opSteps (h : AccountSteps r r') : OpSteps r r' := 
  ReflTransGen.mono (fun _ _ => .account) _ _ h

theorem Edits.opSteps (h : Edits deet r r') : OpSteps r r' := by
  obtain ⟨q, hq, rfl | ⟨s, s', hs, hof, -, rfl⟩⟩ := h
  · exact hq.opSteps
  · refine hq.opSteps.tail (.edit ?_ hof)
    rw [hq.accountsOnly]
    exact hs

theorem Nicknamed.opSteps (h : Nicknamed nID r r') : OpSteps r r' := by
  obtain ⟨owners, lookup, rfl | ⟨s, sAlias, hs, rfl⟩⟩ := h
  · exact .single (.names r.mapAliases owners lookup)
  · exact .tail (.single (.names r.mapAliases owners lookup)) (.edit hs rfl)

theorem opSteps_applyPurchase (env : QPEnv) (r : QPRegistry) (deet : QPTxDetails) (b : CBlockIndex) :
    Either (OpSteps r) (r.applyPurchase env deet b) := by
  rw [applyPurchase]
  split
  · exact .refl
  · next staker hstaker =>
    split
    · exact .refl
    · next sKey _ =>
      have hnft := nicknamed_assignNft env
        ({ r with nIDCounter := r.nIDCounter + 1 }.putStaker (r.nIDCounter + 1) staker)
        (r.nIDCounter + 1) deet sKey
      dsimp only
      split
      · next r₁ heq =>
        rw [heq] at hnft
        exact .head (.add hstaker) hnft.opSteps
      · next r₁ heq =>
        rw [heq] at hnft
        have hr₁ : OpSteps r r₁ := .head (.add hstaker) hnft.opSteps
        have howner : OpSteps r
            (if env.fTestNet = true ∧ getFork env.fTestNet b.nHeight < .missFix then
              r₁.activatePubKey staker.pubkeyOwner b else r₁) := by
          split
          · exact hr₁.tail (.account (.activate _ b))
          · exact hr₁
        exact ((howner.tail (.account (.activate _ b))).tail (.account (.activate _ b))).tail
          (.names _ _ _)

theorem opSteps_applyOp (env : QPEnv) (now : Int) (b : CBlockIndex) (r : QPRegistry)
    (deet : QPTxDetails) : Either (OpSteps r) (r.applyOp env now b deet) := by
  cases hdeet : isPurchase deet with
  | true =>
    rw [applyOp_purchase hdeet]
    exact opSteps_applyPurchase env r deet b
  | false => exact (edits_applyOp env now b r hdeet).imp fun _ => Edits.opSteps

/-- Applying operations in order, with success or with failure, takes elementary steps. -/
theorem opSteps_applyOps (env : QPEnv) (now : Int) (b : CBlockIndex) (deets : List QPTxDetails)
    (r : QPRegistry) : (∀ r', r.applyOps env now b deets = .ok r' → OpSteps r r') ∧
      ∀ n r', r.applyOps env now b deets = .error (n, r') → OpSteps r r' := by
  induction deets generalizing r with
  | nil =>
    constructor
    · intro r' h
      cases h
      exact .refl
    · intro n r' h
      cases h
  | cons deet rest ih =>
    have hop := opSteps_applyOp env now b r deet
    rw [applyOps]
    cases ho : r.applyOp env now b deet with
    | error r₁ =>
      rw [ho] at hop
      constructor
      · intro r' h
        cases h
      · intro n r' h
        cases h
        exact hop
    | ok r₁ =>
      rw [ho] at hop
      obtain ⟨hok, herr⟩ := ih r₁
      exact ⟨fun r' h => hop.trans (hok r' h), fun n r' h => hop.trans (herr n r' h)⟩

theorem opSteps_applyBlockOps (env : QPEnv) (now : Int) (fJustCheck : Bool) (b : CBlockIndex)
    (r : QPRegistry) : (∀ r', r.applyBlockOps env now fJustCheck b = .ok r' → OpSteps r r') ∧
      ∀ e, r.applyBlockOps env now fJustCheck b = .error e → OpSteps r e.1 := by
  obtain ⟨hok, herr⟩ := opSteps_applyOps env now b b.vDeets r
  rw [applyBlockOps]
  split
  · split
    · next n r' heq =>
      refine ⟨fun _ h => (nomatch h), fun e h => ?_⟩
      cases h
      exact herr n r' heq
    · next r' heq =>
      refine ⟨fun r'' h => ?_, fun _ h => (nomatch h)⟩
      cases h
      exact hok r' heq
  · refine ⟨fun r' h => ?_, fun _ h => (nomatch h)⟩
    cases h
    exact .refl

/-- A reflexive and transitive relation that every elementary step satisfies holds across them. -/
theorem OpSteps.rule {R : QPRegistry → QPRegistry → Prop} (hrefl : ∀ r, R r r)
    (htrans : ∀ r₁ r₂ r₃, R r₁ r₂ → R r₂ r₃ → R r₁ r₃) (hstep : ∀ r₁ r₂, OpStep r₁ r₂ → R r₁ r₂)
    (h : OpSteps r r') : R r r' := by
  induction h with
  | refl => exact hrefl r
  | tail _ hlast ih => exact htrans _ _ _ ih (hstep _ _ hlast)

end QPRegistry

end Stealth

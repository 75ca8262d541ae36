import Stealth.Lib.Roll
import Stealth.Qpos.Runs

/-! Identifiers, aliases and characters: a purchase that is applied takes the next ones, all of them free. -/

namespace Stealth

open Loop Tally

variable {r r' : QPRegistry} {nID : Nat} {s : QPStaker} {env : QPEnv} {p b : CBlockIndex}
  {deet : QPTxDetails} {now : Int}

/-- What a purchase registers: the key and the alias that were bought, the alias that the staker reports
and its character. -/
structure Registration where
  sKey : Bytes
  sBought : Bytes
  sAlias : Bytes
  nNftID : Nat

def Names.register (n : Names) (g : Registration) : Names where
  nIDCounter := n.nIDCounter + 1
  aliasOf := n.aliasOf.insert (n.nIDCounter + 1) g.sAlias
  mapAliases := n.mapAliases.insert g.sKey (n.nIDCounter + 1, g.sBought)
  mapNftOwners := n.mapNftOwners.insert (n.nIDCounter + 1) g.nNftID
  mapNftOwnerLookup := n.mapNftOwnerLookup.insert g.nNftID (n.nIDCounter + 1)

namespace QPRegistry

theorem names_advanceTime (env : QPEnv) (nTime : UInt32) (p : CBlockIndex) (r : QPRegistry) :
    (r.advanceTime env nTime p).1.names = r.names :=
  advanceTime_view names (fun r n => (sameIdentity_passSlot env p n r).names) fun _ _ => rfl

theorem names_stakerProducedBlock {nReward : Int}
    (h : r.stakerProducedBlock env b nReward = some r') : r'.names = r.names := by
  obtain ⟨s, s', balances, hs, -, hs', rfl⟩ := stakerProducedBlock_cases h
  refine names_putStaker_same (r := r.pushPower b.nStakerID s true) (getStakerInternal_eq_some.1 hs).2 ?_
  rcases hs' with rfl | ⟨-, rfl⟩ <;> rfl

theorem names_produceBlock (h : r.produceBlock env p b = .ok r') : r'.names = r.names := by
  by_cases hfork : Fork.qpos ≤ getFork env.fTestNet b.nHeight
  · obtain ⟨-, -, r₁, hr₁, rfl⟩ := produceBlock_ok hfork h
    exact (sameIdentity_sawBlockAll r₁ _).names.trans (names_stakerProducedBlock hr₁)
  · rw [produceBlock, if_neg hfork] at h
    cases h
    rfl

/-- An operation other than a purchase changes the accounts and at most the staker that it names. -/
structure EditsStaker (deet : QPTxDetails) (r r' : QPRegistry) : Prop where
  counter : r'.nIDCounter = r.nIDCounter
  aliases : r'.mapAliases = r.mapAliases
  owners : r'.mapNftOwners = r.mapNftOwners
  lookup : r'.mapNftOwnerLookup = r.mapNftOwnerLookup
  stakers : r'.mapStakers = r.mapStakers ∨ ∃ s s', r.mapStakers[deet.id]? = some s ∧
    r'.mapStakers = r.mapStakers.insert deet.id s' ∧ Edited deet s s'

theorem EditsStaker.names (h : EditsStaker deet r r') : r'.names = r.names := by
  refine Names.ext h.counter ?_ h.aliases h.owners h.lookup
  rcases h.stakers with hsame | ⟨s, s', hs, hput, hedit⟩
  · rw [QPRegistry.names, hsame]
    rfl
  · have hnames := congrArg Names.aliasOf (names_putStaker_same hs hedit.sAlias)
    rw [QPRegistry.names, hput]
    exact hnames

theorem Edits.editsStaker (h : Edits deet r r') : EditsStaker deet r r' := by
  obtain ⟨q, hq, h⟩ := h
  have hq := hq.accountsOnly
  rcases h with rfl | ⟨s, s', hs, -, hedit, rfl⟩
  · rw [hq]
    exact ⟨rfl, rfl, rfl, rfl, .inl rfl⟩
  · rw [hq]
    exact ⟨rfl, rfl, rfl, rfl, .inr ⟨s, s', hs, rfl, hedit⟩⟩

/-- What a purchase finds before it registers its staker. -/
structure Vacant (env : QPEnv) (r : QPRegistry) (g : Registration) : Prop where
  key : r.mapAliases[g.sKey]? = none
  staker : r.mapNftOwners[r.nIDCounter + 1]? = none
  nft : r.mapNftOwnerLookup[g.nNftID]? = none
  known : env.nfts.mapNfts.contains g.nNftID = true

/-- The character that a purchase names, by its identifier or by its alias. -/
def namedNft (env : QPEnv) (deet : QPTxDetails) : Option Nat :=
  if deet.id ≠ 0 then some deet.id else env.nfts.mapNftLookup[toLowercaseSafe deet.sAlias]?

/-- The alias that a staker reports after a purchase: the nickname of the character that was named, else
the alias that was bought. -/
def reportedAlias (env : QPEnv) (deet : QPTxDetails) : Bytes :=
  match namedNft env deet with
  | none => deet.sAlias
  | some nNftID => nickname env nNftID

theorem takeNft_ok {nNftID : Nat} {sAlias : Bytes} (h : r.takeNft env nID nNftID sAlias = .ok r') :
    r.mapNftOwners[nID]? = none ∧ r.mapNftOwnerLookup[nNftID]? = none ∧
      env.nfts.mapNfts.contains nNftID = true ∧
      (∃ s, r'.mapStakers = r.mapStakers.insert nID s) ∧
      r'.names = { r.names with
        aliasOf := r.names.aliasOf.insert nID sAlias
        mapNftOwners := r.mapNftOwners.insert nID nNftID
        mapNftOwnerLookup := r.mapNftOwnerLookup.insert nNftID nID } := by
  rw [takeNft] at h
  split at h
  · cases h
  · next hnft =>
    rw [setStakerNft] at hnft
    split_ifs at hnft with _ hknown howner hlookup
    cases hnft
    split at h
    · cases h
    · next halias =>
      cases h
      rw [setAliasAt] at halias
      split at halias
      · cases halias
      · next s _ =>
        obtain ⟨s', hs', rfl⟩ := Option.map_eq_some_iff.1 halias
        rw [QPStaker.setAlias] at hs'
        split at hs'
        · cases hs'
        · cases hs'
          refine ⟨?_, ?_, by simpa using hknown, ⟨_, rfl⟩, ?_⟩
          · simpa using howner
          · simpa using hlookup
          · rw [names_putStaker]
            rfl

theorem nftIDIfAvailable_some {sKey : Bytes} {nNftID : Nat}
    (h : r.nftIDIfAvailable env sKey = some nNftID) : env.nfts.mapNftLookup[sKey]? = some nNftID := by
  rw [nftIDIfAvailable] at h
  dsimp only at h
  rw [getD_eq_getD_getElem?] at h
  cases hkey : env.nfts.mapNftLookup[sKey]? with
  | none =>
    rw [hkey] at h
    split_ifs at h <;> contradiction
  | some n =>
    rw [hkey] at h
    split_ifs at h <;> first | contradiction | exact h

theorem assignNft_ok (h : r.assignNft env nID deet (toLowercaseSafe deet.sAlias) = .ok r') :
    ∃ nNftID, r.takeNft env nID nNftID (reportedAlias env deet) = .ok r' := by
  rw [assignNft] at h
  rw [reportedAlias, namedNft]
  split at h
  · next hid =>
    rw [if_pos hid]
    split at h
    · cases h
    · split at h
      · cases h
      · exact ⟨_, h⟩
  · next hid =>
    rw [if_neg hid]
    split at h
    · split at h
      · cases h
      · next nNftID hnft =>
        rw [nftIDIfAvailable_some hnft]
        exact ⟨nNftID, h⟩
    · next hkey =>
      have hnone : env.nfts.mapNftLookup[toLowercaseSafe deet.sAlias]? = none := by
        simpa [isNftKey] using hkey
      rw [hnone]
      split at h
      · cases h
      · exact ⟨_, h⟩

theorem names_activatePubKey (r : QPRegistry) (key : CPubKey) (b : CBlockIndex) :
    (r.activatePubKey key b).names = r.names := rfl

theorem applyPurchase_ok (h : r.applyPurchase env deet b = .ok r') :
    (∃ s, r'.mapStakers = r.mapStakers.insert (r.nIDCounter + 1) s) ∧
    ∃ nNftID, Vacant env r ⟨toLowercaseSafe deet.sAlias, deet.sAlias, reportedAlias env deet, nNftID⟩ ∧
      r'.names = r.names.register
        ⟨toLowercaseSafe deet.sAlias, deet.sAlias, reportedAlias env deet, nNftID⟩ := by
  rw [applyPurchase] at h
  split at h
  · cases h
  · next staker _ =>
    split at h
    · cases h
    · next sKey hkey =>
      rw [aliasIsAvailableInternal] at hkey
      split_ifs at hkey with _ hfree
      cases hkey
      dsimp only at h
      split at h
      · cases h
      · next r₁ hassign =>
        cases h
        obtain ⟨nNftID, htake⟩ := assignNft_ok hassign
        obtain ⟨howner, hlookup, hknown, ⟨s, hstakers⟩, hnames⟩ := takeNft_ok htake
        rw [show ∀ q : QPRegistry, (q.putStaker (r.nIDCounter + 1) staker).mapStakers =
          q.mapStakers.insert (r.nIDCounter + 1) staker from fun _ => rfl, insert_insert] at hstakers
        refine ⟨⟨s, ?_⟩, nNftID, ⟨by simpa using hfree, howner, hlookup, hknown⟩, ?_⟩
        · rw [← hstakers]
          split <;> rfl
        have hkeys : ∀ (x : QPRegistry) (v : Nat × Bytes),
            ({ x with mapAliases := x.mapAliases.insert (toLowercaseSafe deet.sAlias) v } :
              QPRegistry).names =
            { x.names with
              mapAliases := x.names.mapAliases.insert (toLowercaseSafe deet.sAlias) v } :=
          fun _ _ => rfl
        have hactive : ∀ (c : Prop) [Decidable c] (q : QPRegistry) (key : CPubKey),
            (if c then q.activatePubKey key b else q).names = q.names := by
          intro c _ q key
          split <;> rfl
        rw [hkeys, names_activatePubKey, names_activatePubKey, hactive, hnames, names_putStaker,
          Names.register]
        refine Names.ext rfl (ext_getElem? fun k => ?_) rfl rfl rfl
        simp only [getElem?_insert,
          show r.names.nIDCounter = r.nIDCounter from rfl]
        split <;> rfl

theorem editsStaker_applyOp (hdeet : isPurchase deet = false) (h : r.applyOp env now b deet = .ok r') :
    EditsStaker deet r r' := by
  have hedits := edits_applyOp env now b r hdeet
  rw [h] at hedits
  exact hedits.editsStaker

def purchasesOf (env : QPEnv) (b : CBlockIndex) : List QPTxDetails :=
  if Fork.purchase ≤ getFork env.fTestNet b.nHeight then b.vDeets.filter isPurchase else []

def Update.purchases (env : QPEnv) : Update → List QPTxDetails
  | .block _ _ _ _ pindex _ => purchasesOf env pindex
  | .time _ _ | .exitReplay | .enterReplay | .sync _ => []

def runPurchases (env : QPEnv) (us : List Update) : List QPTxDetails := us.flatMap (Update.purchases env)

end QPRegistry

end Stealth

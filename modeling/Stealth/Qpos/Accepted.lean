import Stealth.Qpos.Signed
import Stealth.Qpos.Solo

/-!
What accepted operations may do: claims within the balance of their key, and key changes by the keys in
force before the transaction.
-/

namespace Stealth

open OptionFold

def CTxOut.claim (txout : CTxOut) : Option QposClaim :=
  match solver txout.scriptPubKey with
  | some (.claim, vSolutions) => some (extractClaim (vSolutions.headD []))
  | _ => none

def CTransaction.claims (tx : CTransaction) : List QposClaim := tx.vout.filterMap CTxOut.claim

def claimsIn (key : CPubKey) (txs : List CTransaction) : List QposClaim :=
  (txs.flatMap CTransaction.claims).filter (·.key = key)

/-- `CheckQPoS` for the transactions of a list in order, each with its previous transactions. -/
def checkQPoSAll (ctx : CheckCtx) (r : QPRegistry) (nTime : UInt32) (pindexPrev : CBlockIndex)
    (hash : Bytes → Uint256) (hashBlock : Uint256) (l : List (CTransaction × MapPrevTx))
    (c : QposContainers) : Option QposContainers :=
  l.foldlM (fun c t => checkQPoS ctx r t.2 nTime pindexPrev t.1
    (getQPTxDetails ctx.env.nfts hash hashBlock t.1) c) c

theorem findClaim_eq (tx : CTransaction) : findClaim tx = tx.claims.head? := by
  rw [findClaim, CTransaction.claims, List.head?_filterMap]
  rfl

theorem exists_claim_output {tx : CTransaction} {claim : QposClaim} (h : claim ∈ tx.claims) :
    ∃ txout ∈ tx.vout, ∃ vSolutions, solver txout.scriptPubKey = some (.claim, vSolutions) := by
  obtain ⟨txout, hmem, hclaim⟩ := List.mem_filterMap.1 h
  rw [CTxOut.claim] at hclaim
  split at hclaim
  · next vSolutions hsolver => exact ⟨txout, hmem, vSolutions, hsolver⟩
  · cases hclaim

theorem length_claims_le {tx : CTransaction} (h : claimShapeIsValid tx = true) : tx.claims.length ≤ 1 := by
  cases hclaims : tx.claims with
  | nil => exact Nat.zero_le 1
  | cons claim rest =>
    obtain ⟨txout, hmem, vSolutions, hsolver⟩ :=
      exists_claim_output (by rw [hclaims]; exact List.mem_cons_self)
    have hout := List.all_eq_true.1 h txout hmem
    rw [hsolver] at hout
    have hlen : tx.vout.length = 1 := beq_iff_eq.1 (Bool.and_eq_true_iff.1 hout).2
    rw [← hclaims, ← hlen]
    exact List.length_filterMap_le _ _

section Claims

variable {ctx : CheckCtx} {r : QPRegistry} {mapInputs : MapPrevTx} {nTime : UInt32}
  {pindexPrev : CBlockIndex} {hash : Bytes → Uint256} {hashBlock : Uint256} {tx : CTransaction}
  {claim : QposClaim} {l : List (CTransaction × MapPrevTx)}

theorem hasKind_claim_of_mem {nfts : NftTable} (h : claim ∈ tx.claims) :
    (getQPTxDetails nfts hash hashBlock tx).any (hasKind .claim) = true := by
  obtain ⟨txout, hmem, vSolutions, hsolver⟩ := exists_claim_output h
  obtain ⟨i, hi, rfl⟩ := List.mem_iff_getElem.1 hmem
  have hdeet : outputDetails nfts hashBlock (tx.getHash hash) i tx.vout[i] =
      some { t := .claim, keys := [(extractClaim (vSolutions.headD [])).key],
             value := (extractClaim (vSolutions.headD [])).value,
             hash := hashBlock, txid := tx.getHash hash, n := i } := by
    rw [outputDetails, hsolver]
    rfl
  refine List.any_eq_true.2 ⟨_, List.mem_filterMap.2 ⟨_, List.mem_mapIdx.2 ⟨i, hi, hdeet⟩, rfl⟩, rfl⟩

/-- A check that passes with a claim is the check of the claims of the transaction. -/
theorem claims_of_checkClaim (h : checkClaim ctx r mapInputs tx = some claim) (hne : tx.claims ≠ []) :
    tx.claims = [claim] ∧ r.canClaimInternal ctx.env ctx.now claim.key claim.value 0 = true := by
  rw [checkClaim] at h
  split at h
  · cases h
  · next hshape =>
    rw [Bool.not_eq_true', Bool.not_eq_false] at hshape
    obtain ⟨found, rest, hclaims⟩ := List.exists_cons_of_ne_nil hne
    have hlen := length_claims_le hshape
    rw [hclaims, List.length_cons] at hlen
    obtain rfl : rest = [] := List.length_eq_zero_iff.1 (by omega)
    rw [findClaim_eq, hclaims] at h
    dsimp only [List.head?_cons] at h
    split at h
    · cases h
    · split at h
      · cases h
      · split at h
        · cases h
        · next hcan =>
          split at h
          · cases h
          · cases h
            rw [Bool.not_eq_true', Bool.not_eq_false] at hcan
            exact ⟨hclaims, hcan⟩

theorem claims_of_txEffects {e : TxEffects}
    (h : txEffects ctx r mapInputs pindexPrev tx (getQPTxDetails ctx.env.nfts hash hashBlock tx) =
      some e) :
    tx.claims = e.claim.toList ∧ ∀ claim, e.claim = some claim →
      r.canClaimInternal ctx.env ctx.now claim.key claim.value 0 = true := by
  obtain ⟨-, -, -, hneeded⟩ := txEffects_eq_some.1 h
  rw [whenNeeded_eq_some] at hneeded
  split at hneeded
  · next hany =>
    obtain ⟨claim, hclaim⟩ := Option.isSome_iff_exists.1 hneeded.2
    obtain ⟨deet, hdeet, hkind⟩ := List.any_eq_true.1 hany
    obtain ⟨txout, hmem, vSolutions, hsolver⟩ := exists_output_of_mem hdeet
    have ht : deet.t = .claim := by
      rw [hasKind, beq_iff_eq] at hkind
      cases heq : deet.t <;> first | rfl | (rw [heq] at hkind; cases hkind)
    have hout : txout.claim = some (extractClaim (vSolutions.headD [])) := by
      rw [CTxOut.claim, hsolver, ht]
    have hne : tx.claims ≠ [] := List.ne_nil_of_mem (List.mem_filterMap.2 ⟨txout, hmem, hout⟩)
    obtain ⟨hclaims, hcan⟩ := claims_of_checkClaim (hneeded.1.trans hclaim) hne
    rw [hclaim]
    refine ⟨hclaims, fun claim' heq => ?_⟩
    cases heq
    exact hcan
  · next hany =>
    rw [hneeded]
    refine ⟨List.eq_nil_iff_forall_not_mem.2 fun claim hmem => hany (hasKind_claim_of_mem hmem), ?_⟩
    exact fun _ hnone => by cases hnone

theorem effects_of_checkQPoSAll {c c' : QposContainers}
    (h : checkQPoSAll ctx r nTime pindexPrev hash hashBlock l c = some c') :
    ∃ es, l.mapM (fun t => txEffects ctx r t.2 pindexPrev t.1
        (getQPTxDetails ctx.env.nfts hash hashBlock t.1)) = some es ∧
      es.foldlM (mergeEffects ctx r nTime) c = some c' := by
  have hstep : (fun c (t : CTransaction × MapPrevTx) => checkQPoS ctx r t.2 nTime pindexPrev t.1
      (getQPTxDetails ctx.env.nfts hash hashBlock t.1) c) = fun c t =>
      (txEffects ctx r t.2 pindexPrev t.1 (getQPTxDetails ctx.env.nfts hash hashBlock t.1)).bind
        (mergeEffects ctx r nTime c) := by
    funext c t
    exact checkQPoS_eq ..
  rw [checkQPoSAll, hstep, foldlM_bind] at h
  exact Option.bind_eq_some_iff.1 h

theorem claims_of_mapM : ∀ {l : List (CTransaction × MapPrevTx)} {es : List TxEffects},
    l.mapM (fun t => txEffects ctx r t.2 pindexPrev t.1
      (getQPTxDetails ctx.env.nfts hash hashBlock t.1)) = some es →
    (l.map Prod.fst).flatMap CTransaction.claims = es.filterMap TxEffects.claim ∧
      ∀ claim ∈ es.filterMap TxEffects.claim, 0 ≤ claim.value ∧
        r.canClaimInternal ctx.env ctx.now claim.key claim.value 0 = true
  | [], es, h => by
    cases h
    exact ⟨rfl, fun _ hmem => (nomatch hmem)⟩
  | t :: l, es, h => by
    rw [List.mapM_cons] at h
    obtain ⟨e, he, h⟩ := Option.bind_eq_some_iff.1 h
    obtain ⟨es', hes', heq⟩ := Option.bind_eq_some_iff.1 h
    cases heq
    obtain ⟨hclaims, hcan⟩ := claims_of_txEffects he
    obtain ⟨hrest, hall⟩ := claims_of_mapM hes'
    rw [List.map_cons, List.flatMap_cons, hclaims, hrest]
    cases hclaim : e.claim with
    | none =>
      rw [List.filterMap_cons_none hclaim]
      exact ⟨rfl, hall⟩
    | some claim =>
      rw [List.filterMap_cons_some hclaim]
      refine ⟨rfl, List.forall_mem_cons.2 ⟨⟨?_, hcan claim hclaim⟩, hall⟩⟩
      exact claim_value_nonneg he hclaim

theorem le_balance_of_canClaimInternal {env : QPEnv} {now nClaimTime nValue : Int} {key : CPubKey}
    (h : r.canClaimInternal env now key nValue nClaimTime = true) :
    ∃ nBalance, r.mapBalances[key]? = some nBalance ∧ nValue ≤ nBalance := by
  rw [QPRegistry.canClaimInternal] at h
  split at h
  · cases h
  · dsimp only at h
    split at h
    · cases h
    · next nBalance hbalance =>
      split at h
      · cases h
      · next hle => exact ⟨nBalance, hbalance, Int.not_lt.1 hle⟩

/-- What a key claims in all transactions that pass together is within its balance, unless it claims
nothing. -/
theorem claimTotal_le_balance {c' : QposContainers}
    (h : checkQPoSAll ctx r nTime pindexPrev hash hashBlock l QposContainers.empty = some c')
    (key : CPubKey) : claimsIn key (l.map Prod.fst) = [] ∨
      ∃ nBalance, r.mapBalances[key]? = some nBalance ∧
        claimTotal (claimsIn key (l.map Prod.fst)) ≤ nBalance := by
  obtain ⟨es, hes, hmerge⟩ := effects_of_checkQPoSAll h
  obtain ⟨hclaims, hall⟩ := claims_of_mapM hes
  have hsome : (es.foldlM (mergeEffects ctx r nTime) QposContainers.empty).isSome := by
    rw [hmerge]
    rfl
  obtain ⟨-, -, hmerged⟩ := (isSome_foldlM_mergeEffects ctx r nTime es QposContainers.empty).1 hsome
  rw [foldlM_mergeWith, isSome_foldlM_mergeClaim ctx r nTime _ _
    (fun claim hmem => (hall claim hmem).1) (by simp [QposContainers.empty])] at hmerged
  have htogether := hmerged key
  have hnil : QposContainers.empty.mapClaims.getD key [] = [] := by simp [QposContainers.empty]
  rw [hnil, List.nil_append] at htogether
  rw [claimsIn, hclaims]
  cases hkey : (es.filterMap TxEffects.claim).filter (·.key = key) with
  | nil => exact .inl rfl
  | cons claim rest =>
    refine .inr ?_
    cases rest with
    | nil =>
      -- a single claim has been checked on its own
      have hmem : claim ∈ (es.filterMap TxEffects.claim).filter (·.key = key) := by
        rw [hkey]
        exact List.mem_cons_self
      obtain ⟨hin, hsame⟩ := List.mem_filter.1 hmem
      obtain ⟨nBalance, hbalance, hle⟩ := le_balance_of_canClaimInternal (hall claim hin).2
      rw [of_decide_eq_true hsame] at hbalance
      exact ⟨nBalance, hbalance, by simpa [claimTotal] using hle⟩
    | cons claim' rest =>
      rw [hkey] at htogether
      refine le_balance_of_canClaimInternal (htogether (List.cons_ne_nil _ _) ?_)
      simp

end Claims

def claimantKey : CPubKey := 2 :: List.replicate 32 7

/-- An output to the key, and the claim of 3 coins of the key that spends it. -/
def claimantTx (n : UInt32) : CTransaction where
  nVersion := 4
  nTime := 0
  vin := [⟨⟨1, n⟩, claimantKey, 0xffffffff⟩]
  vout := [⟨3000000, 0x29 :: (claimantKey ++ [0, 0, 0, 0, 0, 0x2d, 0xc6, 0xc0] ++
    [opClaim, opDup, opHash160, 20] ++ List.replicate 20 9 ++ [opEqualVerify, opCheckSig])⟩]
  nLockTime := 0

def claimantInputs : MapPrevTx := fun _ =>
  some ⟨4, 0, [], List.replicate 2 ⟨1000000, 33 :: (claimantKey ++ [opCheckSig])⟩, 0⟩

def claimantCtx : CheckCtx where
  env := QPRegistry.mainEnv
  now := 1700000000
  nBestHeight := 5800000
  blockOf _ := some 1
  isInMainChain _ := some true

def claimantRegistry : QPRegistry :=
  { QPRegistry.empty QPRegistry.mainEnv with
    mapBalances := (∅ : Map CPubKey Int).insert claimantKey 7000000 }

def claimantTip : CBlockIndex := ⟨5, 5800000, 1600000000, 1, 12000000000, []⟩

def claimantTxs : List (CTransaction × MapPrevTx) :=
  [(claimantTx 0, claimantInputs), (claimantTx 1, claimantInputs)]

/-- Two claims of 3 coins pass together against 7 coins. -/
theorem claimTotal_le_balance_two :
    (∃ c', checkQPoSAll claimantCtx claimantRegistry 1600000005 claimantTip (fun _ => 0) 6 claimantTxs
      QposContainers.empty = some c') ∧
    ∃ nBalance, claimantRegistry.mapBalances[claimantKey]? = some nBalance ∧
      claimTotal (claimsIn claimantKey (claimantTxs.map Prod.fst)) ≤ nBalance := by
  have hsome : (checkQPoSAll claimantCtx claimantRegistry 1600000005 claimantTip (fun _ => 0) 6
      claimantTxs QposContainers.empty).isSome = true := by decide +kernel
  obtain ⟨c', h⟩ := Option.isSome_iff_exists.1 hsome
  refine ⟨⟨c', h⟩, (claimTotal_le_balance h claimantKey).resolve_left ?_⟩
  decide +kernel

def CTxOut.setKey (txout : CTxOut) : Option QposSetKey :=
  match solver txout.scriptPubKey with
  | none => none
  | some (t, vSolutions) => (keyTypeOf t).map fun fThis => extractSetKey fThis (vSolutions.headD [])

def CTransaction.setKeys (tx : CTransaction) : List QposSetKey := tx.vout.filterMap CTxOut.setKey

/-- Which change may stand before which: nothing comes after the owner, and nothing but the owner
after the manager. -/
def QposSetKey.Before (c d : QposSetKey) : Prop :=
  c.keytype ≠ .owner ∧ (c.keytype = .manager → d.keytype = .owner)

section KeyChanges

variable {ctx : CheckCtx} {r : QPRegistry} {mapInputs : MapPrevTx} {tx : CTransaction}

/-- What the loop of `CheckSetKeys` knows after some outputs. -/
structure KeyChanges (outs : List CTxOut) (st : SetKeysState) : Prop where
  changes : st.vRet = outs.filterMap CTxOut.setKey
  types : ∀ fThis, fThis ∈ st.fKeyTypes ↔ ∃ c ∈ st.vRet, c.keytype = fThis
  ids : ∀ c ∈ st.vRet, c.id = st.nStakerID
  started : st.nStakerID = 0 → st.vRet = []
  order : st.vRet.Pairwise QposSetKey.Before
  distinct : (st.vRet.map QposSetKey.keytype).Nodup

theorem isQualifiedStaker_zero (r : QPRegistry) : r.isQualifiedStaker 0 = false := by
  simp [QPRegistry.isQualifiedStaker, QPRegistry.getStakerInternal]

variable {st st' : SetKeysState} {fKeyTypes : List QPKeyType} {v : List QposSetKey} {txout : CTxOut}

theorem checkSetKey_cases (h : checkSetKey ctx r tx st txout = some st') :
    (txout.setKey = none ∧ st' = st) ∨
    ∃ c, txout.setKey = some c ∧ keyOrderIsValid st.fKeyTypes c.keytype = true ∧
      (st.nStakerID = 0 ∧ c.id ≠ 0 ∨ st.nStakerID ≠ 0 ∧ c.id = st.nStakerID) ∧
      st' = ⟨c.keytype :: st.fKeyTypes, c.id, st.vRet ++ [c]⟩ := by
  rw [checkSetKey] at h
  rw [CTxOut.setKey]
  cases hsolver : solver txout.scriptPubKey with
  | none => rw [hsolver] at h; cases h
  | some out =>
    obtain ⟨t, vSolutions⟩ := out
    rw [hsolver] at h
    dsimp only at h ⊢
    cases htype : keyTypeOf t with
    | none =>
      rw [htype] at h
      cases h
      exact .inl ⟨rfl, rfl⟩
    | some fThis =>
      rw [htype] at h
      dsimp only at h
      refine .inr ⟨extractSetKey fThis (vSolutions.headD []), rfl, ?_⟩
      split at h
      · cases h
      split at h
      · cases h
      next horder =>
      rw [Bool.not_eq_true', Bool.not_eq_false] at horder
      split at h
      · cases h
      split at h
      · next hzero =>
        split at h
        · next hqualified =>
          cases h
          refine ⟨horder, .inl ⟨hzero, fun hid => ?_⟩, rfl⟩
          rw [hid, isQualifiedStaker_zero] at hqualified
          cases hqualified
        · cases h
      · next hzero =>
        split at h
        · cases h
        · next hid =>
          cases h
          rw [not_not] at hid
          exact ⟨horder, .inr ⟨hzero, hid⟩, by rw [hid]; rfl⟩

theorem keyOrderIsValid_iff {fThis : QPKeyType} :
    keyOrderIsValid fKeyTypes fThis = true ↔ fThis ∉ fKeyTypes ∧
      .owner ∉ fKeyTypes ∧ (.manager ∈ fKeyTypes → fThis = .owner) := by
  rw [keyOrderIsValid]
  cases fThis <;> simp <;> tauto

theorem KeyChanges.step {outs : List CTxOut} (hst : KeyChanges outs st)
    (h : checkSetKey ctx r tx st txout = some st') :
    KeyChanges (outs ++ [txout]) st' := by
  obtain ⟨hnone, rfl⟩ | ⟨c, hsome, horder, hid, rfl⟩ := checkSetKey_cases h
  · refine { hst with changes := ?_ }
    rw [hst.changes, List.filterMap_append, List.filterMap_cons_none hnone]
    exact (List.append_nil _).symm
  · obtain ⟨hfresh, howner, hmanager⟩ := keyOrderIsValid_iff.1 horder
    have hne : c.id ≠ 0 := by
      obtain ⟨-, hne⟩ | ⟨hne, heq⟩ := hid
      · exact hne
      · exact heq ▸ hne
    refine ⟨?_, fun fThis => ?_, fun d hd => ?_, fun hzero => absurd hzero hne, ?_, ?_⟩
    · rw [hst.changes, List.filterMap_append, List.filterMap_cons_some hsome]
      rfl
    · rw [List.mem_cons, hst.types]
      simp only [List.mem_append, List.mem_singleton]
      constructor
      · rintro (rfl | ⟨d, hd, rfl⟩)
        · exact ⟨c, .inr rfl, rfl⟩
        · exact ⟨d, .inl hd, rfl⟩
      · rintro ⟨d, hd | rfl, rfl⟩
        · exact .inr ⟨d, hd, rfl⟩
        · exact .inl rfl
    · obtain hd | hd := List.mem_append.1 hd
      · obtain ⟨hzero, -⟩ | ⟨-, heq⟩ := hid
        · rw [hst.started hzero] at hd
          cases hd
        · rw [hst.ids d hd, heq]
      · rw [List.mem_singleton.1 hd]
    · refine List.pairwise_append.2 ⟨hst.order, List.pairwise_singleton _ _, fun d hd c' hc' => ?_⟩
      rw [List.mem_singleton.1 hc']
      refine ⟨fun heq => howner ((hst.types _).2 ⟨d, hd, heq⟩), fun heq => ?_⟩
      exact hmanager ((hst.types _).2 ⟨d, hd, heq⟩)
    · rw [List.map_append, List.nodup_append]
      refine ⟨hst.distinct, List.nodup_singleton _, ?_⟩
      rintro fThis hmem _ hc rfl
      rw [List.map_singleton, List.mem_singleton] at hc
      subst hc
      obtain ⟨d, hd, heq⟩ := List.mem_map.1 hmem
      exact hfresh ((hst.types _).2 ⟨d, hd, heq⟩)

theorem KeyChanges.run : ∀ {todo outs : List CTxOut} {st st' : SetKeysState}, KeyChanges outs st →
    todo.foldlM (checkSetKey ctx r tx) st = some st' → KeyChanges (outs ++ todo) st'
  | [], outs, st, st', hst, h => by
    cases h
    rw [List.append_nil]
    exact hst
  | txout :: todo, outs, st, st', hst, h => by
    rw [List.foldlM_cons] at h
    obtain ⟨mid, hmid, h⟩ := Option.bind_eq_some_iff.1 h
    have hrest := (hst.step hmid).run h
    rwa [List.append_assoc] at hrest

theorem KeyChanges.start : KeyChanges [] ⟨[], 0, []⟩ :=
  ⟨rfl, by simp, by simp, fun _ => rfl, .nil, .nil⟩

theorem exists_key_of_validateStakerSignatory {nID : Nat}
    (h : validateStakerSignatory ctx r mapInputs tx nID fKeyTypes = true) :
    ∃ keySignatory, getSignatory ctx.view mapInputs tx 0 = some keySignatory ∧
      ∃ fThis ∈ fKeyTypes, getKeyOfType r nID fThis = some keySignatory := by
  rw [validateStakerSignatory] at h
  split at h
  · cases h
  · next vKeys hkeys =>
    rw [validateSignatory] at h
    split at h
    · cases h
    · next keySignatory hsignatory =>
      have hmem : keySignatory ∈ vKeys := List.contains_iff_mem.1 (Bool.and_eq_true_iff.1 h).2
      refine ⟨keySignatory, hsignatory, ?_⟩
      exact exists_of_mem_mapM hkeys hmem

theorem after_of_pairwise (horder : v.Pairwise QposSetKey.Before) {pre post : List QposSetKey}
    {c : QposSetKey} (hv : v = pre ++ c :: post) :
    (c.keytype = .owner → post = []) ∧
      (c.keytype = .manager → post = [] ∨ ∃ d, post = [d] ∧ d.keytype = .owner) := by
  rw [hv] at horder
  obtain ⟨-, hpost, -⟩ := List.pairwise_append.1 horder
  obtain ⟨hc, hpost⟩ := List.pairwise_cons.1 hpost
  constructor
  · intro howner
    refine List.eq_nil_iff_forall_not_mem.2 fun d hd => (hc d hd).1 howner
  · intro hmanager
    cases post with
    | nil => exact .inl rfl
    | cons d rest =>
      have hd : d.keytype = .owner := (hc d List.mem_cons_self).2 hmanager
      obtain ⟨hnone, -⟩ := List.pairwise_cons.1 hpost
      have hrest : rest = [] :=
        List.eq_nil_iff_forall_not_mem.2 fun e he => (hnone e he).1 hd
      exact .inr ⟨d, by rw [hrest], hd⟩

/-- Key changes that pass concern one staker, are signed with a key that was in force before, the
owner's if the owner changes, and come in the order manager, owner at the end. -/
theorem authority_of_checkSetKeys (h : checkSetKeys ctx r mapInputs tx = some v) :
    v = tx.setKeys ∧ ∃ nID keySignatory, (∀ c ∈ v, c.id = nID) ∧
      getSignatory ctx.view mapInputs tx 0 = some keySignatory ∧
      ((∃ c ∈ v, c.keytype = .owner) → r.getOwnerKey nID = some keySignatory) ∧
      ((¬∃ c ∈ v, c.keytype = .owner) →
        r.getOwnerKey nID = some keySignatory ∨ r.getManagerKey nID = some keySignatory) ∧
      ∀ pre c post, v = pre ++ c :: post →
        (c.keytype = .owner → post = []) ∧
        (c.keytype = .manager → post = [] ∨ ∃ d, post = [d] ∧ d.keytype = .owner) := by
  rw [checkSetKeys] at h
  split at h
  · cases h
  next st hst =>
  have hknown := KeyChanges.start.run hst
  split at h
  · cases h
  obtain ⟨hvalid, hret⟩ := Option.ite_none_right_eq_some.1 h
  obtain ⟨keySignatory, hsignatory, fThis, hmem, hkey⟩ := exists_key_of_validateStakerSignatory hvalid
  cases hret
  refine ⟨hknown.changes, st.nStakerID, keySignatory, hknown.ids, hsignatory, ?_, ?_,
    fun _ _ _ => after_of_pairwise hknown.order⟩
  · intro howner
    rw [if_pos (List.contains_iff_mem.2 ((hknown.types _).2 howner)), List.mem_singleton] at hmem
    rwa [hmem] at hkey
  · intro hnone
    have hnot : ¬st.fKeyTypes.contains QPKeyType.owner = true :=
      fun hin => hnone ((hknown.types _).1 (List.contains_iff_mem.1 hin))
    rw [if_neg hnot] at hmem
    obtain rfl | hmem := List.mem_cons.1 hmem
    · exact .inl hkey
    · rw [List.mem_singleton.1 hmem] at hkey
      exact .inr hkey

end KeyChanges

def keyedRegistry : QPRegistry :=
  { QPRegistry.empty QPRegistry.mainEnv with
    nIDCounter := 1
    mapStakers := QPRegistry.only QPRegistry.soloStaker }

def keyedTx : CTransaction where
  nVersion := 4
  nTime := 0
  vin := [⟨⟨1, 0⟩, QPRegistry.soloKey, 0xffffffff⟩]
  vout := [⟨0, 37 :: ([0, 0, 0, 1] ++ 2 :: List.replicate 32 8 ++ [opSetManager])⟩,
    ⟨0, 37 :: ([0, 0, 0, 1] ++ 3 :: List.replicate 32 9 ++ [opSetOwner])⟩]
  nLockTime := 0

theorem authority_of_checkSetKeys_two :
    ∃ v, checkSetKeys claimantCtx keyedRegistry claimantInputs keyedTx = some v ∧
      v.map QposSetKey.keytype = [.manager, .owner] ∧
      ∃ keySignatory, getSignatory claimantCtx.view claimantInputs keyedTx 0 = some keySignatory := by
  have hchanges : keyedTx.setKeys.map QposSetKey.keytype = [.manager, .owner] := by decide +kernel
  have hsome : (checkSetKeys claimantCtx keyedRegistry claimantInputs keyedTx).isSome = true := by
    decide +kernel
  obtain ⟨v, h⟩ := Option.isSome_iff_exists.1 hsome
  obtain ⟨rfl, -, keySignatory, -, hsignatory, -⟩ := authority_of_checkSetKeys h
  exact ⟨_, h, hchanges, keySignatory, hsignatory⟩

end Stealth

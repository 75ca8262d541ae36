import Stealth.Qpos.Effects

/-! Operations that need a signatory, which is that of a single input. -/

namespace Stealth

open OptionFold

variable {nfts : NftTable} {claim : QposClaim}

def needsInputs (deets : List QPTxDetails) : Bool := deets.any fun d => !hasKind .purchase d

theorem detailsOf_t {t : TxnOutType} {vch : Bytes} {deet : QPTxDetails}
    (h : detailsOf nfts t vch = some deet) : deet.t = t := by
  cases t <;> cases h <;> rfl

theorem exists_output_of_mem {hash : Bytes → Uint256} {hashBlock : Uint256}
    {tx : CTransaction} {deet : QPTxDetails} (h : deet ∈ getQPTxDetails nfts hash hashBlock tx) :
    ∃ txout ∈ tx.vout, ∃ vSolutions, solver txout.scriptPubKey = some (deet.t, vSolutions) := by
  obtain ⟨o, ho, hdeet⟩ := List.mem_filterMap.1 h
  obtain ⟨i, hi, hout⟩ := List.mem_mapIdx.1 ho
  refine ⟨tx.vout[i], List.getElem_mem hi, ?_⟩
  subst hdeet
  simp only [outputDetails] at hout
  cases hsolver : solver tx.vout[i].scriptPubKey with
  | none => simp [hsolver] at hout
  | some found =>
    obtain ⟨t, vSolutions⟩ := found
    rw [hsolver] at hout
    obtain ⟨d, hd, rfl⟩ := Option.map_eq_some_iff.1 hout
    exact ⟨vSolutions, by rw [detailsOf_t hd]⟩

theorem map_t_getQPTxDetails (nfts : NftTable) (hash : Bytes → Uint256) (hashBlock hashBlock' : Uint256)
    (tx : CTransaction) : (getQPTxDetails nfts hash hashBlock tx).map QPTxDetails.t =
      (getQPTxDetails nfts hash hashBlock' tx).map QPTxDetails.t := by
  have hout : ∀ i txout,
      (outputDetails nfts hashBlock (tx.getHash hash) i txout).map QPTxDetails.t =
        (outputDetails nfts hashBlock' (tx.getHash hash) i txout).map QPTxDetails.t := by
    intro i txout
    simp only [outputDetails]
    cases solver txout.scriptPubKey with
    | none => rfl
    | some found => simp [Function.comp_def]
  simp only [getQPTxDetails, List.mapIdx_eq_zipIdx_map, List.filterMap_map, List.map_filterMap]
  exact List.filterMap_congr fun p _ => hout p.2 p.1

section Signed

variable {ctx : CheckCtx} {r : QPRegistry} {mapInputs mapInputs' : MapPrevTx} {pindexPrev : CBlockIndex}
  {tx : CTransaction} {deets deets' : List QPTxDetails} {e : TxEffects}

theorem validateSignatory_congr
    (h : getSignatory ctx.view mapInputs tx 0 = getSignatory ctx.view mapInputs' tx 0) :
    validateSignatory ctx mapInputs tx = validateSignatory ctx mapInputs' tx := by
  funext vKeys
  rw [validateSignatory, validateSignatory, h]

theorem txEffects_congr (h : getSignatory ctx.view mapInputs tx 0 = getSignatory ctx.view mapInputs' tx 0) :
    txEffects ctx r mapInputs pindexPrev tx deets = txEffects ctx r mapInputs' pindexPrev tx deets := by
  have hkeys : validateSignatory ctx mapInputs tx = validateSignatory ctx mapInputs' tx :=
    validateSignatory_congr h
  have hstaker : validateStakerSignatory ctx r mapInputs tx = validateStakerSignatory ctx r mapInputs' tx := by
    funext nStakerID fKeyTypes
    rw [validateStakerSignatory, validateStakerSignatory, hkeys]
  have hstate : checkSetStateOut ctx r mapInputs tx = checkSetStateOut ctx r mapInputs' tx := by
    funext nID txout
    simp only [checkSetStateOut, hstaker]
  have hmeta : checkSetMeta ctx r mapInputs tx = checkSetMeta ctx r mapInputs' tx := by
    funext st txout
    simp only [checkSetMeta, hstaker]
  simp only [txEffects, plainChecksPass, setMetasPass, checkSetState, checkSetMetas, checkSetKeys,
    checkClaim, hstate, hmeta, hstaker, hkeys]

theorem txEffects_types (h : deets.map QPTxDetails.t = deets'.map QPTxDetails.t) :
    txEffects ctx r mapInputs pindexPrev tx deets = txEffects ctx r mapInputs pindexPrev tx deets' := by
  have hany : ∀ κ, deets.any (hasKind κ) = deets'.any (hasKind κ) := by
    intro κ
    have heq := congrArg (List.any · fun t => opKind t == some κ) h
    simp only [List.any_map] at heq
    exact heq
  have hcount : ∀ κ, deets.countP (hasKind κ) = deets'.countP (hasKind κ) := by
    intro κ
    have heq := congrArg (List.countP fun t => opKind t == some κ) h
    simp only [List.countP_map] at heq
    exact heq
  have hall : (deets.all fun d => (opKind d.t).isSome) = deets'.all fun d => (opKind d.t).isSome := by
    have heq := congrArg (List.all · fun t => (opKind t).isSome) h
    simp only [List.all_map] at heq
    exact heq
  have hplain : plainChecksPass ctx r mapInputs tx deets = plainChecksPass ctx r mapInputs tx deets' := by
    simp only [plainChecksPass, hany, hcount, hall]
  rw [txEffects, txEffects, hplain, hany, hany, hany]

theorem whenNeeded_eq_some {α : Type} {f : Bool} {x : Option α} {a : Option α} :
    whenNeeded f x = some a ↔ if f then x = a ∧ a.isSome else a = none := by
  cases f
  · exact ⟨fun h => (Option.some.inj h).symm, fun h => congrArg some h.symm⟩
  · cases x <;> cases a <;> simp [whenNeeded]

theorem txEffects_eq_some : txEffects ctx r mapInputs pindexPrev tx deets = some e ↔
    plainChecksPass ctx r mapInputs tx deets = true ∧
      whenNeeded (deets.any (hasKind .purchase))
        (checkPurchases ctx r (nextStakerPrice ctx r pindexPrev) tx) = some e.purchases ∧
      whenNeeded (deets.any (hasKind .setKey)) (checkSetKeys ctx r mapInputs tx) = some e.setKeys ∧
      whenNeeded (deets.any (hasKind .claim)) (checkClaim ctx r mapInputs tx) = some e.claim := by
  obtain ⟨purchases, setKeys, claim⟩ := e
  rw [txEffects]
  split
  · next h => simp [h, Option.bind_eq_some_iff]
  · next h => simp [h]

theorem signatory_of_validateSignatory {vKeys : List CPubKey}
    (h : validateSignatory ctx mapInputs tx vKeys) : (getSignatory ctx.view mapInputs tx 0).isSome := by
  rw [validateSignatory] at h
  cases hsig : getSignatory ctx.view mapInputs tx 0 with
  | none => simp [hsig] at h
  | some key => rfl

theorem signatory_of_validateStakerSignatory {nStakerID : Nat} {fKeyTypes : List QPKeyType}
    (h : validateStakerSignatory ctx r mapInputs tx nStakerID fKeyTypes) :
    (getSignatory ctx.view mapInputs tx 0).isSome := by
  rw [validateStakerSignatory] at h
  split at h
  · cases h
  · exact signatory_of_validateSignatory h

def SingleSigned (ctx : CheckCtx) (mapInputs : MapPrevTx) (tx : CTransaction) : Prop :=
  tx.vin.length = 1 ∧ (getSignatory ctx.view mapInputs tx 0).isSome

theorem keyTypeOf_of_opKind {t : TxnOutType} (ht : opKind t = some .setKey) :
    ∃ fThis, keyTypeOf t = some fThis := by
  cases t <;> first | exact ⟨_, rfl⟩ | cases ht

variable {txout : CTxOut} {t : TxnOutType} {vSolutions : List Bytes}

theorem singleSigned_of_checkSetKeys {v : List QposSetKey}
    (h : checkSetKeys ctx r mapInputs tx = some v) (hmem : txout ∈ tx.vout)
    (hsolver : solver txout.scriptPubKey = some (t, vSolutions)) (ht : opKind t = some .setKey) :
    SingleSigned ctx mapInputs tx := by
  rw [checkSetKeys] at h
  split at h
  · cases h
  · next st hfold =>
    constructor
    · obtain ⟨s, s', hstep⟩ := exists_step_of_foldlM hmem hfold
      obtain ⟨fThis, hfThis⟩ := keyTypeOf_of_opKind ht
      by_contra hlen
      simp [checkSetKey, hsolver, hfThis, hlen] at hstep
    · by_contra hsig
      have hvalid : ∀ fKeyTypes, validateStakerSignatory ctx r mapInputs tx st.nStakerID fKeyTypes = false :=
        fun fKeyTypes => Bool.eq_false_iff.2 fun hvalid => hsig (signatory_of_validateStakerSignatory hvalid)
      simp [hvalid] at h

theorem singleSigned_of_checkSetState {nID : Nat}
    (h : checkSetState ctx r mapInputs tx = some nID) (hmem : txout ∈ tx.vout)
    (hsolver : solver txout.scriptPubKey = some (t, vSolutions)) (ht : opKind t = some .setState) :
    SingleSigned ctx mapInputs tx := by
  obtain ⟨s, s', hstep⟩ := exists_step_of_foldlM hmem h
  have htype : ¬ (t ≠ .enable ∧ t ≠ .disable) := by
    cases t <;> first | decide | cases ht
  simp only [checkSetStateOut, hsolver, if_neg htype] at hstep
  split at hstep
  · cases hstep
  · next hguard =>
    split at hstep
    · next hvalid =>
      rw [Bool.and_eq_true] at hvalid
      exact ⟨by tauto, signatory_of_validateStakerSignatory hvalid.2⟩
    · cases hstep

theorem singleSigned_of_checkClaim (h : checkClaim ctx r mapInputs tx = some claim) (hmem : txout ∈ tx.vout)
    (hsolver : solver txout.scriptPubKey = some (t, vSolutions)) (ht : opKind t = some .claim) :
    SingleSigned ctx mapInputs tx := by
  obtain rfl : t = .claim := by
    cases t <;> first | rfl | cases ht
  rw [checkClaim] at h
  split at h
  · cases h
  · next hshape =>
    have hsingle : tx.vin.length = 1 := by
      rw [Bool.not_eq_true', Bool.not_eq_false, claimShapeIsValid, List.all_eq_true] at hshape
      have hout := hshape txout hmem
      rw [hsolver] at hout
      simp only [Bool.and_eq_true, beq_iff_eq] at hout
      exact hout.1
    refine ⟨hsingle, ?_⟩
    split at h
    · next hnone =>
      have hfind := List.findSome?_eq_none_iff.1 hnone txout hmem
      rw [hsolver] at hfind
      cases hfind
    · by_contra hsig
      have hvalid : ∀ vKeys, validateSignatory ctx mapInputs tx vKeys = false :=
        fun vKeys => Bool.eq_false_iff.2 fun hvalid => hsig (signatory_of_validateSignatory hvalid)
      simp [hvalid] at h

theorem singleSigned_of_setMetasPass (h : setMetasPass ctx r mapInputs tx) (hmem : txout ∈ tx.vout)
    (hsolver : solver txout.scriptPubKey = some (t, vSolutions)) (ht : opKind t = some .setMeta) :
    SingleSigned ctx mapInputs tx := by
  obtain rfl : t = .setMeta := by
    cases t <;> first | rfl | cases ht
  rw [setMetasPass] at h
  cases hmetas : checkSetMetas ctx r mapInputs tx with
  | none => simp [hmetas] at h
  | some vRet =>
    obtain ⟨st, hfold, rfl⟩ := Option.map_eq_some_iff.1 hmetas
    constructor
    · obtain ⟨s, s', hstep⟩ := exists_step_of_foldlM hmem hfold
      by_contra hlen
      simp [checkSetMeta, hsolver, hlen] at hstep
    · by_contra hsig
      have hvalid : ∀ nID fKeyTypes, validateStakerSignatory ctx r mapInputs tx nID fKeyTypes = false :=
        fun nID fKeyTypes =>
          Bool.eq_false_iff.2 fun hvalid => hsig (signatory_of_validateStakerSignatory hvalid)
      -- without a signatory the first change fails, so there is none
      have hnil : st.vRet = [] := by
        refine foldlM_invariant (P := fun st : SetMetasState => st.vRet = []) ?_ rfl hfold
        intro a x b ha hstep
        simp only [checkSetMeta, hvalid, ha] at hstep
        split at hstep
        · cases hstep
        · split at hstep
          · cases hstep
            exact ha
          · simp at hstep
      simp [hmetas, hnil] at h

/-- A transaction that passes with an operation that needs inputs has a single signed input. -/
theorem singleSigned_of_txEffects {hash : Bytes → Uint256} {hashBlock : Uint256}
    (h : txEffects ctx r mapInputs pindexPrev tx (getQPTxDetails nfts hash hashBlock tx) = some e)
    (hneeds : needsInputs (getQPTxDetails nfts hash hashBlock tx)) : SingleSigned ctx mapInputs tx := by
  obtain ⟨deet, hdeet, hkind⟩ := List.any_eq_true.1 hneeds
  obtain ⟨txout, hmem, vSolutions, hsolver⟩ := exists_output_of_mem hdeet
  obtain ⟨hplain, -, hkeys, hclaim⟩ := txEffects_eq_some.1 h
  simp only [plainChecksPass, Bool.and_eq_true, Bool.or_eq_true, Bool.not_eq_true'] at hplain
  obtain ⟨⟨⟨hall, hstate⟩, -⟩, hmeta⟩ := hplain
  have hany : ∀ {κ}, opKind deet.t = some κ →
      (getQPTxDetails nfts hash hashBlock tx).any (hasKind κ) = true :=
    fun hκ => List.any_eq_true.2 ⟨deet, hdeet, by simp [hasKind, hκ]⟩
  cases hκ : opKind deet.t with
  | none =>
    have hknown := List.all_eq_true.1 hall deet hdeet
    simp [hκ] at hknown
  | some κ =>
    cases κ with
    | purchase => simp [hasKind, hκ] at hkind
    | setKey =>
      rw [hany hκ, whenNeeded_eq_some, if_pos rfl] at hkeys
      obtain ⟨v, hv⟩ := Option.isSome_iff_exists.1 hkeys.2
      exact singleSigned_of_checkSetKeys (hkeys.1.trans hv) hmem hsolver hκ
    | setState =>
      rw [hany hκ] at hstate
      obtain ⟨nID, hnID⟩ := Option.isSome_iff_exists.1 (hstate.resolve_left (by simp)).2
      exact singleSigned_of_checkSetState hnID hmem hsolver hκ
    | claim =>
      rw [hany hκ, whenNeeded_eq_some, if_pos rfl] at hclaim
      obtain ⟨claim, hc⟩ := Option.isSome_iff_exists.1 hclaim.2
      exact singleSigned_of_checkClaim (hclaim.1.trans hc) hmem hsolver hκ
    | setMeta =>
      rw [hany hκ] at hmeta
      exact singleSigned_of_setMetasPass (hmeta.resolve_left (by simp)) hmem hsolver hκ

theorem value_nonneg_of_checkClaim (h : checkClaim ctx r mapInputs tx = some claim) : 0 ≤ claim.value := by
  rw [checkClaim] at h
  split at h
  · cases h
  · split at h
    · cases h
      exact Int.le_refl 0
    · next found _ =>
      by_cases hmin : found.value < MIN_TXOUT_AMOUNT
      · simp [hmin] at h
      · obtain rfl : found = claim := by
          simp only [hmin, if_false] at h
          repeat' split at h
          all_goals first | exact Option.some.inj h | cases h
        exact Int.le_trans (by decide) (Int.not_lt.1 hmin)

theorem claim_value_nonneg
    (h : txEffects ctx r mapInputs pindexPrev tx deets = some e) (hclaim : e.claim = some claim) :
    0 ≤ claim.value := by
  obtain ⟨-, -, -, hneeded⟩ := txEffects_eq_some.1 h
  rw [whenNeeded_eq_some] at hneeded
  split at hneeded
  · exact value_nonneg_of_checkClaim (hneeded.1.trans hclaim)
  · rw [hclaim] at hneeded
    cases hneeded

end Signed

end Stealth

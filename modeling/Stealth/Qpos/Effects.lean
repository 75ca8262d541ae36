import Mathlib.Algebra.Order.BigOperators.Group.List
import Stealth.Lib.Fold
import Stealth.Lib.Tally
import Stealth.Qpos.CheckOps

/-!
What `CheckQPoS` does to the containers of a block: transactions pass together exactly when each passes
alone and their effects go together.
-/

namespace Stealth

open OptionFold

/-- What a transaction adds to the containers. -/
structure TxEffects where
  purchases : Option (Map Bytes QposPurchase)
  setKeys : Option (List QposSetKey)
  claim : Option QposClaim

def whenNeeded {α : Type} (f : Bool) (x : Option α) : Option (Option α) :=
  if f then x.map some else some none

theorem bind_flagged {α β γ : Type} (f : Bool) (x : Option α) (merge : β → α → Option β) (b : β)
    (k : Bool × β → Option γ) :
    (if f then (x.bind (merge b)).map fun b => (true, b) else some (false, b)).bind k =
      (whenNeeded f x).bind fun a => (mergeWith merge b a).bind fun b => k (f, b) := by
  cases f with
  | false => rfl
  | true =>
    cases x with
    | none => rfl
    | some a =>
      show ((merge b a).map _).bind k = (merge b a).bind _
      cases merge b a <;> rfl

section Effects

variable (ctx : CheckCtx) (r : QPRegistry) (mapInputs : MapPrevTx) (nTime : UInt32)
  (pindexPrev : CBlockIndex) (tx : CTransaction)

def setMetasPass : Bool :=
  match checkSetMetas ctx r mapInputs tx with
  | none | some [] => false
  | some _ => true

abbrev CheckParts :=
  (Bool × Map Bytes QposPurchase) × (Bool × Map Nat (List QposSetKey)) × (Bool × Unit) ×
    (Bool × Map CPubKey (List QposClaim)) × (Bool × Unit) × Unit

def toParts (st : CheckedKinds × QposContainers) : CheckParts :=
  ((st.1.fPurchases, st.2.mapPurchases), (st.1.fSetKeys, st.2.mapSetKeys), (st.1.fSetState, ()),
    (st.1.fClaim, st.2.mapClaims), (st.1.fSetMetas, ()), ())

def purchaseStep : Bool × Map Bytes QposPurchase → QPTxDetails → Option (Bool × Map Bytes QposPurchase) :=
  onceStep (hasKind .purchase) fun m =>
    (checkPurchases ctx r (nextStakerPrice ctx r pindexPrev) tx).bind (mergePurchases m)

def setKeyStep : Bool × Map Nat (List QposSetKey) → QPTxDetails →
    Option (Bool × Map Nat (List QposSetKey)) :=
  onceStep (hasKind .setKey) fun m => (checkSetKeys ctx r mapInputs tx).bind (mergeSetKeys m)

def setStateStep : Bool × Unit → QPTxDetails → Option (Bool × Unit) :=
  singleStep (hasKind .setState) fun _ => (checkSetState ctx r mapInputs tx).map fun _ => ()

def claimStep : Bool × Map CPubKey (List QposClaim) → QPTxDetails →
    Option (Bool × Map CPubKey (List QposClaim)) :=
  singleStep (hasKind .claim) fun m =>
    (checkClaim ctx r mapInputs tx).bind (mergeClaim ctx r nTime m)

def setMetaStep : Bool × Unit → QPTxDetails → Option (Bool × Unit) :=
  onceStep (hasKind .setMeta) fun _ => if setMetasPass ctx r mapInputs tx then some () else none

def kindStep (_ : Unit) (deet : QPTxDetails) : Option Unit :=
  if (opKind deet.t).isSome then some () else none

theorem checkDeet_toParts (st : CheckedKinds × QposContainers) (deet : QPTxDetails) :
    (checkDeet ctx r mapInputs nTime pindexPrev tx st deet).map toParts =
      prodStep (purchaseStep ctx r pindexPrev tx) (prodStep (setKeyStep ctx r mapInputs tx)
        (prodStep (setStateStep ctx r mapInputs tx) (prodStep (claimStep ctx r mapInputs nTime tx)
          (prodStep (setMetaStep ctx r mapInputs tx) kindStep)))) (toParts st) deet := by
  obtain ⟨⟨fP, fS, fE, fC, fM⟩, c⟩ := st
  cases hk : opKind deet.t with
  | none =>
    simp [checkDeet, prodStep, purchaseStep, setKeyStep, setStateStep, claimStep, setMetaStep,
      kindStep, onceStep, singleStep, hasKind, toParts, hk]
  | some κ =>
    simp only [checkDeet, prodStep, purchaseStep, setKeyStep, setStateStep, claimStep, setMetaStep,
      kindStep, onceStep, singleStep, hasKind, toParts, hk]
    cases κ with
    | purchase =>
      cases fP with
      | true => rfl
      | false =>
        cases checkPurchases ctx r (nextStakerPrice ctx r pindexPrev) tx with
        | none => rfl
        | some m => cases h : mergePurchases c.mapPurchases m <;> simp [h, toParts]
    | setKey =>
      cases fS with
      | true => rfl
      | false =>
        cases checkSetKeys ctx r mapInputs tx with
        | none => rfl
        | some v => cases h : mergeSetKeys c.mapSetKeys v <;> simp [h, toParts]
    | setState =>
      cases fE with
      | true => rfl
      | false => cases checkSetState ctx r mapInputs tx <;> simp [toParts]
    | claim =>
      cases fC with
      | true => rfl
      | false =>
        cases checkClaim ctx r mapInputs tx with
        | none => rfl
        | some claim => cases h : mergeClaim ctx r nTime c.mapClaims claim <;> simp [h, toParts]
    | setMeta =>
      cases fM with
      | true => rfl
      | false =>
        rcases h : checkSetMetas ctx r mapInputs tx with _ | _ | _
        all_goals simp [setMetasPass, h, toParts]

theorem foldlM_kindStep (deets : List QPTxDetails) :
    deets.foldlM kindStep () = if deets.all fun d => (opKind d.t).isSome then some () else none := by
  induction deets with
  | nil => rfl
  | cons d deets ih =>
    rw [List.foldlM_cons, kindStep, List.all_cons]
    cases (opKind d.t).isSome with
    | false => rfl
    | true => exact ih

def plainChecksPass (deets : List QPTxDetails) : Bool :=
  deets.all (fun d => (opKind d.t).isSome) &&
    (!deets.any (hasKind .setState) ||
      (deets.countP (hasKind .setState) == 1 && (checkSetState ctx r mapInputs tx).isSome)) &&
    (!deets.any (hasKind .claim) || deets.countP (hasKind .claim) == 1) &&
    (!deets.any (hasKind .setMeta) || setMetasPass ctx r mapInputs tx)

def txEffects (deets : List QPTxDetails) : Option TxEffects :=
  if plainChecksPass ctx r mapInputs tx deets then
    (whenNeeded (deets.any (hasKind .purchase))
      (checkPurchases ctx r (nextStakerPrice ctx r pindexPrev) tx)).bind fun purchases =>
    (whenNeeded (deets.any (hasKind .setKey)) (checkSetKeys ctx r mapInputs tx)).bind fun setKeys =>
    (whenNeeded (deets.any (hasKind .claim)) (checkClaim ctx r mapInputs tx)).map fun claim =>
      ⟨purchases, setKeys, claim⟩
  else none

def mergeEffects (c : QposContainers) (e : TxEffects) : Option QposContainers :=
  (mergeWith mergePurchases c.mapPurchases e.purchases).bind fun mapPurchases =>
  (mergeWith mergeSetKeys c.mapSetKeys e.setKeys).bind fun mapSetKeys =>
  (mergeWith (mergeClaim ctx r nTime) c.mapClaims e.claim).map fun mapClaims =>
    ⟨mapPurchases, mapSetKeys, mapClaims⟩

def fromParts (p : CheckParts) : QposContainers := ⟨p.1.2, p.2.1.2, p.2.2.2.1.2⟩

theorem joinParts (c : QposContainers) (bP bS bE nE bC nC bM pM bK : Bool) (xE : Option Nat)
    (xP : Option (Map Bytes QposPurchase)) (xS : Option (List QposSetKey)) (xC : Option QposClaim) :
    ((if bP then (xP.bind (mergePurchases c.mapPurchases)).map fun b => (true, b)
        else some (false, c.mapPurchases)).bind fun a =>
      ((if bS then (xS.bind (mergeSetKeys c.mapSetKeys)).map fun b => (true, b)
        else some (false, c.mapSetKeys)).bind fun a =>
      ((if bE then if nE then (xE.map fun _ => ()).map fun b => (true, b) else none
        else some (false, ())).bind fun a =>
      ((if bC then if nC then (xC.bind (mergeClaim ctx r nTime c.mapClaims)).map fun b => (true, b)
          else none
        else some (false, c.mapClaims)).bind fun a =>
      ((if bM then (if pM then some () else none).map fun b => (true, b)
        else some (false, ())).bind fun a =>
      (if bK then some () else none).map fun b => (a, b)).map fun b => (a, b)).map fun b =>
        (a, b)).map fun b => (a, b)).map fun b => (a, b)).map fromParts =
    (if bK && (!bE || (nE && xE.isSome)) && (!bC || nC) && (!bM || pM) then
      (whenNeeded bP xP).bind fun purchases => (whenNeeded bS xS).bind fun setKeys =>
        (whenNeeded bC xC).map fun claim => (⟨purchases, setKeys, claim⟩ : TxEffects)
      else none).bind (mergeEffects ctx r nTime c) := by
  -- the checks that leave nothing behind are conditions
  have hE : (if bE then if nE then (xE.map fun _ => ()).map fun b => (true, b) else none
      else some (false, ())) = if !bE || (nE && xE.isSome) then some (bE, ()) else none := by
    cases bE <;> cases nE <;> cases xE <;> rfl
  have hC : (if bC then if nC then
        (xC.bind (mergeClaim ctx r nTime c.mapClaims)).map fun b => (true, b) else none
      else some (false, c.mapClaims)) = if !bC || nC then
        if bC then (xC.bind (mergeClaim ctx r nTime c.mapClaims)).map fun b => (true, b)
          else some (false, c.mapClaims)
      else none := by
    cases bC <;> cases nC <;> rfl
  have hM : (if bM then (if pM then some () else none).map fun b => (true, b)
      else some (false, ())) = if !bM || pM then some (bM, ()) else none := by
    cases bM <;> cases pM <;> rfl
  rw [hE, hC, hM]
  cases bK <;> cases (!bE || (nE && xE.isSome)) <;> cases (!bC || nC) <;> cases (!bM || pM) <;>
    simp only [bind_flagged, Bool.false_eq_true, if_false, if_true, Option.bind_none,
      Option.map_none, Option.bind_some, Option.map_some, Bool.and_true, Bool.and_false,
      Option.bind_fun_none]
  -- every merge happens after the check it belongs to, in either order
  cases whenNeeded bP xP <;> cases whenNeeded bS xS <;> cases whenNeeded bC xC <;>
    simp [mergeEffects, fromParts, Function.comp_def]
  simp only [Option.map_eq_bind, Function.comp_def]

theorem checkQPoS_eq (deets : List QPTxDetails) (c : QposContainers) :
    checkQPoS ctx r mapInputs nTime pindexPrev tx deets c =
      (txEffects ctx r mapInputs pindexPrev tx deets).bind (mergeEffects ctx r nTime c) := by
  have hfold := foldlM_map (checkDeet_toParts ctx r mapInputs nTime pindexPrev tx) deets ({}, c)
  have hsnd : (Prod.snd : CheckedKinds × QposContainers → QposContainers) = fromParts ∘ toParts := rfl
  rw [checkQPoS, hsnd, ← Option.map_map, hfold]
  simp only [toParts, foldlM_prodStep, foldlM_kindStep, purchaseStep, setKeyStep, setStateStep,
    claimStep, setMetaStep, foldlM_onceStep, foldlM_singleStep]
  exact joinParts ctx r nTime c ..

end Effects

section Merge

variable (ctx : CheckCtx) (r : QPRegistry) (nTime : UInt32)

def TxEffects.setKeyID (e : TxEffects) : Option Nat := e.setKeys.bind fun v => v.head?.map (·.id)

def TxEffects.takes (e : TxEffects) (sLC : Bytes) : Prop := ∃ m, e.purchases = some m ∧ sLC ∈ m

def claimsOf (key : CPubKey) (es : List TxEffects) : List QposClaim :=
  (es.filterMap TxEffects.claim).filter (·.key = key)

def claimTotal (claims : List QposClaim) : Int := (claims.map QposClaim.value).sum

/-- No two transactions take a name or change the keys of a staker, and the claims of a key with more
than one can be claimed together at the time of the block. -/
structure Compatible (es : List TxEffects) : Prop where
  names : es.Pairwise fun e e' => ∀ sLC, e.takes sLC → ¬ e'.takes sLC
  setKeys : es.Pairwise fun e e' => ∀ nID, e.setKeyID = some nID → e'.setKeyID ≠ some nID
  claims : ∀ key, 2 ≤ (claimsOf key es).length →
    r.canClaimInternal ctx.env ctx.now key (claimTotal (claimsOf key es)) nTime.toNat

theorem mem_foldl_insert {α β : Type} [Ord α] [Std.TransOrd α] [Std.LawfulEqOrd α]
    (l : List (α × β)) (m : Map α β) (k : α) :
    k ∈ l.foldl (fun m e => m.insert e.1 e.2) m ↔ k ∈ m ∨ ∃ e ∈ l, e.1 = k := by
  induction l generalizing m with
  | nil => simp
  | cons e l ih =>
    rw [List.foldl_cons, ih, mem_insert, List.exists_mem_cons_iff,
      Std.LawfulEqOrd.compare_eq_iff_eq]
    tauto

theorem exists_mem_toList {α β : Type} [Ord α] [Std.TransOrd α] [Std.LawfulEqOrd α] (m : Map α β)
    (k : α) : (∃ e ∈ m.toList, e.1 = k) ↔ k ∈ m := by
  constructor
  · rintro ⟨⟨k', v⟩, he, rfl⟩
    rw [mem_toList_iff_getElem?_eq_some] at he
    exact Tally.mem_of_getElem? he
  · intro hk
    obtain ⟨v, hv⟩ := Tally.exists_getElem? hk
    exact ⟨(k, v), mem_toList_iff_getElem?_eq_some.2 hv, rfl⟩

theorem mergePurchases_eq_some {m t m' : Map Bytes QposPurchase} (h : mergePurchases m t = some m')
    (sLC : Bytes) : sLC ∈ m' ↔ sLC ∈ m ∨ sLC ∈ t := by
  rw [mergePurchases] at h
  split at h
  · cases h
  · cases h
    rw [mem_foldl_insert, exists_mem_toList]

theorem isSome_mergePurchases {m t : Map Bytes QposPurchase} :
    (mergePurchases m t).isSome ↔ ∀ sLC ∈ t, sLC ∉ m := by
  have hany : (t.toList.any fun e => m.contains e.1) = true ↔ ∃ sLC ∈ t, sLC ∈ m := by
    simp only [List.any_eq_true, contains_iff_mem]
    constructor
    · rintro ⟨e, he, hm⟩
      exact ⟨e.1, (exists_mem_toList t e.1).1 ⟨e, he, rfl⟩, hm⟩
    · rintro ⟨sLC, ht, hm⟩
      obtain ⟨e, he, rfl⟩ := (exists_mem_toList t sLC).2 ht
      exact ⟨e, he, hm⟩
  rw [mergePurchases]
  split
  · next h =>
    obtain ⟨sLC, ht, hm⟩ := hany.1 h
    simpa using ⟨sLC, ht, hm⟩
  · next h =>
    rw [hany] at h
    push Not at h
    simpa using h

theorem isSome_foldlM_purchases (es : List TxEffects) (m : Map Bytes QposPurchase) :
    ((es.map TxEffects.purchases).foldlM (mergeWith mergePurchases) m).isSome ↔
      (∀ e ∈ es, ∀ sLC, e.takes sLC → sLC ∉ m) ∧
        es.Pairwise fun e e' => ∀ sLC, e.takes sLC → ¬ e'.takes sLC := by
  rw [List.foldlM_map]
  have hfold := isSome_foldlM_disjoint
    (fun (m : Map Bytes QposPurchase) (e : TxEffects) => mergeWith mergePurchases m e.purchases)
    (fun m sLC => sLC ∈ m) TxEffects.takes (fun _ => True) ?_ ?_ es m
  · simpa using hfold
  · rintro m ⟨_ | t, _, _⟩
    · simp [mergeWith, TxEffects.takes]
    · simpa [mergeWith, TxEffects.takes] using isSome_mergePurchases
  · rintro m ⟨_ | t, _, _⟩ m' h sLC
    · cases h
      simp [TxEffects.takes]
    · simpa [TxEffects.takes] using mergePurchases_eq_some h sLC

theorem isSome_foldlM_setKeys (es : List TxEffects) (m : Map Nat (List QposSetKey)) :
    ((es.map TxEffects.setKeys).foldlM (mergeWith mergeSetKeys) m).isSome ↔
      (∀ e ∈ es, e.setKeys ≠ some [] ∧ ∀ nID, e.setKeyID = some nID → nID ∉ m) ∧
        es.Pairwise fun e e' => ∀ nID, e.setKeyID = some nID → e'.setKeyID ≠ some nID := by
  rw [List.foldlM_map]
  refine isSome_foldlM_disjoint
    (fun (m : Map Nat (List QposSetKey)) (e : TxEffects) => mergeWith mergeSetKeys m e.setKeys)
    (fun m nID => nID ∈ m) (fun e nID => e.setKeyID = some nID) (fun e => e.setKeys ≠ some [])
    ?_ ?_ es m
  · rintro m ⟨_, _ | _ | ⟨setkey, rest⟩, _⟩
    · simp [mergeWith, TxEffects.setKeyID]
    · simp [mergeWith, mergeSetKeys]
    · simp [mergeWith, mergeSetKeys, TxEffects.setKeyID]
  · rintro m ⟨_, _ | _ | ⟨setkey, rest⟩, _⟩ m' h nID
    · cases h
      simp [TxEffects.setKeyID]
    · cases h
    · simp only [mergeWith, mergeSetKeys] at h
      split at h
      · cases h
      · cases h
        simp [TxEffects.setKeyID, or_comm]

theorem canClaimInternal_mono {env : QPEnv} {now : Int} {r : QPRegistry} {key : CPubKey}
    {nValue nValue' nClaimTime : Int} (hle : nValue ≤ nValue')
    (h : r.canClaimInternal env now key nValue' nClaimTime) :
    r.canClaimInternal env now key nValue nClaimTime := by
  unfold QPRegistry.canClaimInternal at h ⊢
  split at h
  · cases h
  · next hnow =>
    rw [if_neg hnow]
    cases hbal : r.mapBalances[key]? with
    | none => simp [hbal] at h
    | some nBalance =>
      simp only [hbal] at h ⊢
      split at h
      · cases h
      · next hval => rwa [if_neg (by omega)]

theorem foldl_add_value (claims : List QposClaim) (n : Int) :
    claims.foldl (fun n c => n + c.value) n = n + claimTotal claims := by
  induction claims generalizing n with
  | nil => simp [claimTotal]
  | cons c claims ih =>
    rw [List.foldl_cons, ih, claimTotal, claimTotal, List.map_cons, List.sum_cons]
    omega

theorem claimTotal_append (claims claims' : List QposClaim) :
    claimTotal (claims ++ claims') = claimTotal claims + claimTotal claims' := by
  simp [claimTotal]

theorem claimTotal_nonneg {claims : List QposClaim} (h : ∀ claim ∈ claims, 0 ≤ claim.value) :
    0 ≤ claimTotal claims := by
  refine List.sum_nonneg fun n hn => ?_
  obtain ⟨claim, hmem, rfl⟩ := List.mem_map.1 hn
  exact h claim hmem

theorem mergeClaim_eq_some {m m' : Map CPubKey (List QposClaim)} {claim : QposClaim}
    (h : mergeClaim ctx r nTime m claim = some m') :
    m' = m.insert claim.key (m.getD claim.key [] ++ [claim]) := by
  simp only [mergeClaim] at h
  split at h
  · cases h
  · exact (Option.some.inj h).symm

theorem isSome_mergeClaim {m : Map CPubKey (List QposClaim)} {claim : QposClaim} :
    (mergeClaim ctx r nTime m claim).isSome ↔ (claim.key ∈ m →
      r.canClaimInternal ctx.env ctx.now claim.key
        (claimTotal (m.getD claim.key [] ++ [claim])) nTime.toNat) := by
  have htotal : claimTotal (m.getD claim.key [] ++ [claim]) =
      claim.value + claimTotal (m.getD claim.key []) := by
    simp [claimTotal, Int.add_comm]
  simp only [mergeClaim, foldl_add_value, htotal]
  split
  · next h => simpa using h
  · next h => simpa using h

/-- Claims that are merged one by one pass exactly when those of a key with several pass together. -/
theorem isSome_foldlM_mergeClaim : ∀ (claims : List QposClaim) (m : Map CPubKey (List QposClaim)),
    (∀ claim ∈ claims, 0 ≤ claim.value) → (∀ key, key ∈ m ↔ m.getD key [] ≠ []) →
    ((claims.foldlM (mergeClaim ctx r nTime) m).isSome ↔ ∀ key, claims.filter (·.key = key) ≠ [] →
      2 ≤ (m.getD key [] ++ claims.filter (·.key = key)).length →
      r.canClaimInternal ctx.env ctx.now key
        (claimTotal (m.getD key [] ++ claims.filter (·.key = key))) nTime.toNat)
  | [], _, _, _ => by simp
  | claim :: claims, m, hval, hm => by
    obtain ⟨-, hrest⟩ := List.forall_mem_cons.1 hval
    rw [List.foldlM_cons]
    -- whatever was merged, the claims of a key are the old ones and the new ones
    have hsame : ∀ key, (m.insert claim.key (m.getD claim.key [] ++ [claim])).getD key [] ++
        claims.filter (·.key = key) = m.getD key [] ++ (claim :: claims).filter (·.key = key) := by
      intro key
      rw [getD_insert, List.filter_cons]
      by_cases hkey : claim.key = key
      · subst hkey
        simp
      · simp [hkey]
    have hm' : ∀ key, key ∈ m.insert claim.key (m.getD claim.key [] ++ [claim]) ↔
        (m.insert claim.key (m.getD claim.key [] ++ [claim])).getD key [] ≠ [] := by
      intro key
      rw [getD_insert, mem_insert]
      by_cases hkey : claim.key = key
      · simp [hkey]
      · simpa [hkey] using hm key
    have ih := isSome_foldlM_mergeClaim claims _ hrest hm'
    simp only [hsame] at ih
    cases hmerge : mergeClaim ctx r nTime m claim with
    | none =>
      refine iff_of_false (by simp) fun hall => ?_
      have hno : ¬ (mergeClaim ctx r nTime m claim).isSome := by simp [hmerge]
      rw [isSome_mergeClaim] at hno
      push Not at hno
      obtain ⟨hmem, hno⟩ := hno
      have hold : 0 < (m.getD claim.key []).length := List.length_pos_iff.2 ((hm claim.key).1 hmem)
      refine hno (canClaimInternal_mono ?_ (hall claim.key (by simp) ?_))
      · have hnonneg : 0 ≤ claimTotal (claims.filter (·.key = claim.key)) :=
          claimTotal_nonneg fun c hc => hrest c (List.mem_of_mem_filter hc)
        rw [List.filter_cons_of_pos (by simp),
          List.append_cons (m.getD claim.key []) claim (claims.filter (·.key = claim.key)),
          claimTotal_append (m.getD claim.key [] ++ [claim])]
        omega
      · simp
        omega
    | some m₁ =>
      rw [mergeClaim_eq_some ctx r nTime hmerge]
      refine ih.trans ⟨fun hall key hne hlen => ?_, fun hall key hne hlen => hall key ?_ hlen⟩
      · by_cases hnew : claims.filter (·.key = key) = []
        · have hkey : claim.key = key := by
            by_contra hkey
            rw [List.filter_cons_of_neg (by simpa using hkey)] at hne
            exact hne hnew
          subst hkey
          rw [List.filter_cons_of_pos (by simp), hnew] at hlen ⊢
          have hok : (mergeClaim ctx r nTime m claim).isSome := by simp [hmerge]
          refine (isSome_mergeClaim ctx r nTime).1 hok ((hm claim.key).2 fun hnil => ?_)
          rw [hnil] at hlen
          exact absurd hlen (by simp)
        · exact hall key hnew hlen
      · obtain ⟨c, hc⟩ := List.exists_mem_of_ne_nil _ hne
        obtain ⟨hc, hkey⟩ := List.mem_filter.1 hc
        exact List.ne_nil_of_mem (List.mem_filter.2 ⟨List.mem_cons_of_mem _ hc, hkey⟩)

theorem isSome_foldlM_mergeEffects (es : List TxEffects) (c : QposContainers) :
    (es.foldlM (mergeEffects ctx r nTime) c).isSome ↔
      ((es.map TxEffects.purchases).foldlM (mergeWith mergePurchases) c.mapPurchases).isSome ∧
      ((es.map TxEffects.setKeys).foldlM (mergeWith mergeSetKeys) c.mapSetKeys).isSome ∧
      ((es.map TxEffects.claim).foldlM (mergeWith (mergeClaim ctx r nTime)) c.mapClaims).isSome := by
  have hstep : ∀ (c : QposContainers) (e : TxEffects),
      (mergeEffects ctx r nTime c e).map (fun c => (c.mapPurchases, c.mapSetKeys, c.mapClaims)) =
        prodStep (fun m (e : TxEffects) => mergeWith mergePurchases m e.purchases)
          (prodStep (fun m (e : TxEffects) => mergeWith mergeSetKeys m e.setKeys)
            (fun m (e : TxEffects) => mergeWith (mergeClaim ctx r nTime) m e.claim))
          (c.mapPurchases, c.mapSetKeys, c.mapClaims) e := by
    intro c e
    simp only [mergeEffects, prodStep]
    cases mergeWith mergePurchases c.mapPurchases e.purchases <;>
      cases mergeWith mergeSetKeys c.mapSetKeys e.setKeys <;>
      cases mergeWith (mergeClaim ctx r nTime) c.mapClaims e.claim <;> rfl
  rw [← Option.isSome_map (f := fun c : QposContainers => (c.mapPurchases, c.mapSetKeys, c.mapClaims)),
    foldlM_map hstep, foldlM_prodStep, foldlM_prodStep, List.foldlM_map, List.foldlM_map,
    List.foldlM_map]
  cases es.foldlM (fun m (e : TxEffects) => mergeWith mergePurchases m e.purchases) c.mapPurchases <;>
    cases es.foldlM (fun m (e : TxEffects) => mergeWith mergeSetKeys m e.setKeys) c.mapSetKeys <;>
    simp

/-- The effects of transactions with valid claims go together exactly when they are compatible. -/
theorem isSome_foldlM_empty {es : List TxEffects} (hset : ∀ e ∈ es, e.setKeys ≠ some [])
    (hval : ∀ e ∈ es, ∀ claim, e.claim = some claim → 0 ≤ claim.value) :
    (es.foldlM (mergeEffects ctx r nTime) QposContainers.empty).isSome ↔ Compatible ctx r nTime es := by
  have hclaims : ∀ claim ∈ es.filterMap TxEffects.claim, 0 ≤ claim.value := by
    intro claim hmem
    obtain ⟨e, he, hclaim⟩ := List.mem_filterMap.1 hmem
    exact hval e he claim hclaim
  rw [isSome_foldlM_mergeEffects, isSome_foldlM_purchases, isSome_foldlM_setKeys, foldlM_mergeWith,
    isSome_foldlM_mergeClaim ctx r nTime _ _ hclaims (by simp [QposContainers.empty])]
  simp only [QposContainers.empty]
  constructor
  · rintro ⟨⟨-, hnames⟩, ⟨-, hsetKeys⟩, hkeys⟩
    refine ⟨hnames, hsetKeys, fun key hlen => ?_⟩
    have hne : (es.filterMap TxEffects.claim).filter (·.key = key) ≠ [] := by
      intro hnil
      rw [claimsOf, hnil] at hlen
      exact absurd hlen (by simp)
    simpa [claimsOf] using hkeys key hne (by simpa [claimsOf] using hlen)
  · rintro ⟨hnames, hsetKeys, hkeys⟩
    refine ⟨⟨by simp, hnames⟩, ⟨fun e he => ⟨hset e he, by simp⟩, hsetKeys⟩, fun key _ hlen => ?_⟩
    simpa [claimsOf] using hkeys key (by simpa [claimsOf] using hlen)

theorem Compatible.of_subperm {ctx : CheckCtx} {r : QPRegistry} {nTime : UInt32} {es es' : List TxEffects}
    (hval : ∀ e ∈ es, ∀ claim, e.claim = some claim → 0 ≤ claim.value) (hsub : es'.Subperm es)
    (h : Compatible ctx r nTime es) : Compatible ctx r nTime es' := by
  obtain ⟨l, hperm, hsub⟩ := hsub
  constructor
  · refine (hperm.pairwise_iff ?_).1 (h.names.sublist hsub)
    intro e e' hne sLC he' he
    exact hne sLC he he'
  · refine (hperm.pairwise_iff ?_).1 (h.setKeys.sublist hsub)
    intro e e' hne nID he' he
    exact hne nID he he'
  · intro key hlen
    have hclaims : (claimsOf key l).Perm (claimsOf key es') := (hperm.filterMap _).filter _
    have hfewer : (claimsOf key l).Sublist (claimsOf key es) := (hsub.filterMap _).filter _
    have htotal : claimTotal (claimsOf key es') ≤ claimTotal (claimsOf key es) := by
      rw [claimTotal, ← (hclaims.map QposClaim.value).sum_eq]
      refine (hfewer.map QposClaim.value).sum_le_sum fun n hn => ?_
      obtain ⟨claim, hmem, rfl⟩ := List.mem_map.1 hn
      obtain ⟨e, he, hclaim⟩ := List.mem_filterMap.1 (List.mem_of_mem_filter hmem)
      exact hval e he claim hclaim
    refine canClaimInternal_mono htotal (h.claims key (hlen.trans ?_))
    rw [← hclaims.length_eq]
    exact hfewer.length_le

end Merge

end Stealth

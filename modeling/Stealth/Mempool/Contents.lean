import Stealth.Mempool.Runs

/-!
What the pool may hold. The table of claims is read by `accept` and never written, and the removals of
expired transactions are not recursive.
-/

namespace Stealth

open OptionFold

def CTransaction.claimsFor (tx : CTransaction) (key : CPubKey) : Bool := tx.claims.any (·.key == key)

def AcceptEnv.accepts {hash : Bytes → Uint256} (v : AcceptEnv hash) (fCheckInputs : Bool)
    (pool : CTxMemPool) (tx : CTransaction) : Bool :=
  match v.checkNames fCheckInputs pool tx with
  | none => false
  | some mapNames => (v.checkRest fCheckInputs pool (CTxMemPool.purchasesValue mapNames) tx).isOk

/-- An operation brings no claim for a key that a transaction of the pool claims for. -/
def PoolOp.claimsNewKeys {hash : Bytes → Uint256} (pool : CTxMemPool) : PoolOp hash → Prop
  | .accept v fCheckInputs tx => v.accepts fCheckInputs pool tx = true →
      ∀ {key : CPubKey} {h : Uint256} {tx' : CTransaction}, tx.claimsFor key = true →
        pool.mapTx[h]? = some tx' → tx'.claimsFor key = false
  | _ => True

namespace CTxMemPool

variable {hash : Bytes → Uint256} {pool pool' : CTxMemPool}

def OneClaimant (pool : CTxMemPool) : Prop :=
  ∀ {key : CPubKey} {h h' : Uint256} {tx tx' : CTransaction}, pool.mapTx[h]? = some tx →
    tx.claimsFor key = true → pool.mapTx[h']? = some tx' → tx'.claimsFor key = true → h = h'

theorem mapTx_accept (v : AcceptEnv hash) (fCheckInputs : Bool) (pool : CTxMemPool) (tx : CTransaction) :
    (pool.accept v fCheckInputs tx).2.mapTx =
      if v.accepts fCheckInputs pool tx then pool.mapTx.insert (tx.getHash hash) tx else pool.mapTx := by
  unfold AcceptEnv.accepts
  obtain ⟨hnames, heq⟩ | ⟨mapNames, hnames, ⟨e, hrest, heq⟩ | ⟨feework, hrest, heq⟩⟩ :=
    accept_cases v fCheckInputs pool tx
  · simp [heq, hnames]
  · simp [heq, hnames, hrest, Except.isOk, Except.toBool, mapTx_register]
  · simp [heq, hnames, hrest, Except.isOk, Except.toBool, mapTx_store, mapTx_register]

variable {tx : CTransaction} {op : PoolOp hash}

theorem not_mem_of_accepts {v : AcceptEnv hash} {fCheckInputs : Bool}
    (haccepts : v.accepts fCheckInputs pool tx = true) : tx.getHash hash ∉ pool.mapTx := by
  unfold AcceptEnv.accepts at haccepts
  split at haccepts
  · cases haccepts
  · next hnames => exact (new_of_checkNames hnames).1

theorem within_applyOp (hremoval : op.isRemoval = true) (happly : applyOp pool op = some pool') :
    Within pool' pool := by
  cases op with
  | accept v fCheckInputs tx => cases hremoval
  | clear => cases hremoval
  | remove fRecursive tx => exact within_remove happly
  | removeConflicts tx => exact within_removeConflicts happly
  | removeOldFeeless nBestHeight =>
    cases happly
    obtain ⟨htxs, hnext, hclaims⟩ : Within (removeIds hash pool _) pool := within_removeIds _
    exact ⟨htxs, hnext, hclaims⟩
  | removeInvalidPurchases ctx r pindexBest =>
    cases happly
    exact within_removeIds _

theorem OneClaimant.applyOp_iff (hone : pool.OneClaimant) (happly : applyOp pool op = some pool') :
    pool'.OneClaimant ↔ op.claimsNewKeys pool := by
  cases hremoval : op.isRemoval with
  | true =>
    have hw := within_applyOp hremoval happly
    have hnew : op.claimsNewKeys pool := by
      cases op with
      | accept v fCheckInputs tx => cases hremoval
      | _ => trivial
    exact iff_of_true (fun h hk h' hk' => hone (hw.txs h) hk (hw.txs h') hk') hnew
  | false =>
    cases op with
    | accept v fCheckInputs tx =>
      cases happly
      simp only [OneClaimant, mapTx_accept, PoolOp.claimsNewKeys]
      cases haccepts : v.accepts fCheckInputs pool tx with
      | false =>
        simp only [Bool.false_eq_true, if_false]
        exact iff_of_true (fun hget hk hget' hk' => hone hget hk hget' hk') nofun
      | true =>
        have hnew := not_mem_of_accepts haccepts
        simp only [if_true, getElem?_insert]
        constructor
        · intro hone' _ key k tx' hclaims hget
          by_contra hclaims'
          rw [Bool.not_eq_false] at hclaims'
          have hne : ¬ compare (tx.getHash hash) k = .eq := by
            intro heq
            rw [Std.LawfulEqOrd.eq_of_compare heq] at hnew
            exact hnew (Tally.mem_of_getElem? hget)
          have heq := hone' (if_pos Std.ReflCmp.compare_self) hclaims
            (by rw [if_neg hne]; exact hget) hclaims'
          exact hne (heq ▸ Std.ReflCmp.compare_self)
        · intro hnewKeys key k k' tx₁ tx₂ hget₁ hclaims₁ hget₂ hclaims₂
          split at hget₁ <;> split at hget₂
          · next h₁ h₂ =>
            rw [← Std.LawfulEqOrd.eq_of_compare h₁, ← Std.LawfulEqOrd.eq_of_compare h₂]
          · cases hget₁
            rw [hnewKeys trivial hclaims₁ hget₂] at hclaims₂
            cases hclaims₂
          · cases hget₂
            rw [hnewKeys trivial hclaims₂ hget₁] at hclaims₁
            cases hclaims₁
          · exact hone hget₁ hclaims₁ hget₂ hclaims₂
    | clear =>
      cases happly
      refine iff_of_true ?_ trivial
      intro key h h' tx tx' hget
      simp [clear] at hget
    | _ => cases hremoval

/-- At every moment of a run at most one transaction claims for a key, exactly if every accepted claim is
for a key that no transaction of the pool claims for. -/
theorem oneClaimant_run_iff (ops : List (PoolOp hash)) :
    (∀ pool, Passes applyOp {} ops pool → pool.OneClaimant) ↔
      ∀ pool op, Takes applyOp {} ops pool op → op.claimsNewKeys pool := by
  refine forall_passes_iff (I := fun _ => True) (fun _ _ _ => trivial)
    (fun _ _ hone happly => hone.applyOp_iff happly) ?_ trivial ?_
  · intro pool op hnone
    cases op with
    | accept v fCheckInputs tx => cases hnone
    | _ => trivial
  · intro key h h' tx tx' hget
    simp at hget

/-- Two claims of one key in the pool. -/
theorem two_claims_in_pool :
    ∃ pool, Passes applyOp {} [.accept poolEnv true (looseClaim 0), .accept poolEnv true (looseClaim 1)]
      pool ∧ ¬ pool.OneClaimant := by
  refine ⟨_, ⟨_, List.prefix_rfl, rfl⟩, fun hone => ?_⟩
  have hfirst : ((({} : CTxMemPool).accept poolEnv true (looseClaim 0)).2.accept poolEnv true
      (looseClaim 1)).2.mapTx[(looseClaim 0).getHash rollingHash]? = some (looseClaim 0) := by
    decide +kernel
  have hsecond : ((({} : CTxMemPool).accept poolEnv true (looseClaim 0)).2.accept poolEnv true
      (looseClaim 1)).2.mapTx[(looseClaim 1).getHash rollingHash]? = some (looseClaim 1) := by
    decide +kernel
  have hclaim : ∀ n : UInt32, n = 0 ∨ n = 1 → (looseClaim n).claimsFor claimantKey = true := by
    rintro n (rfl | rfl) <;> decide +kernel
  have heq := hone hfirst (hclaim 0 (.inl rfl)) hsecond (hclaim 1 (.inr rfl))
  exact absurd heq (by decide +kernel)

/-- Feework of the transaction refers to a block that is too deep at the best height. -/
def IsOldFeeless (pool : CTxMemPool) (nBestHeight : Int) (h : Uint256) : Prop :=
  ∃ nHeight ids, pool.mapFeeless[nHeight]? = some ids ∧ FEELESS_MAX_DEPTH < nBestHeight - nHeight ∧
    h ∈ ids

/-- The transaction has a purchase that the registry does not take any more. -/
def HasInvalidPurchase (pool : CTxMemPool) (ctx : CheckCtx) (r : QPRegistry) (pindexBest : CBlockIndex)
    (h : Uint256) : Prop :=
  ∃ tx, pool.mapTx[h]? = some tx ∧ purchasesAreInvalid ctx r pindexBest tx = true

/-- With a transaction, all transactions of the pool that spend its outputs are selected. -/
def SpendersToo (pool : CTxMemPool) (selected : Uint256 → Prop) : Prop :=
  ∀ {h k : Uint256} {parent tx : CTransaction} {o : COutPoint}, pool.mapTx[h]? = some parent →
    selected h → pool.mapTx[k]? = some tx → o ∈ tx.prevouts → o.hash = h →
    o.n.toNat < parent.vout.length → selected k

/-- A pool whose transactions are stored under their ids, as `accept` does it. -/
def Keyed (hash : Bytes → Uint256) (pool : CTxMemPool) : Prop :=
  ∀ (h : Uint256) (tx : CTransaction), pool.mapTx[h]? = some tx → tx.getHash hash = h

theorem Keyed.within (hk : pool.Keyed hash) (hw : Within pool' pool) : pool'.Keyed hash :=
  fun h tx hget => hk h tx (hw.txs hget)

theorem keyed_empty : ({} : CTxMemPool).Keyed hash := by
  intro h tx hget
  simp at hget

theorem Keyed.insert (hk : pool.Keyed hash)
    (hpool : pool'.mapTx = pool.mapTx.insert (tx.getHash hash) tx) : pool'.Keyed hash := by
  intro h tx' hget
  rw [hpool, getElem?_insert] at hget
  split at hget
  · next heq =>
    cases hget
    exact Std.LawfulEqOrd.eq_of_compare heq
  · exact hk h tx' hget

theorem keyed_of_run {ops : List (PoolOp hash)} (hpasses : Passes applyOp {} ops pool) : pool.Keyed hash := by
  refine passes_invariant (I := fun p : CTxMemPool => p.Keyed hash) ?_ keyed_empty hpasses
  intro p op p' _ hk happly
  cases hremoval : op.isRemoval with
  | true => exact hk.within (within_applyOp hremoval happly)
  | false =>
    cases op with
    | accept v fCheckInputs tx =>
      cases happly
      have hmapTx := mapTx_accept v fCheckInputs p tx
      split at hmapTx
      · exact hk.insert hmapTx
      · intro h tx' hget
        rw [hmapTx] at hget
        exact hk h tx' hget
    | clear =>
      cases happly
      intro h tx hget
      simp [clear] at hget
    | _ => cases hremoval

theorem mapTx_removeOne (hmem : tx.getHash hash ∈ pool.mapTx) :
    (removeOne hash pool tx).mapTx = pool.mapTx.erase (tx.getHash hash) := by
  rw [removeOne, if_pos (contains_iff_mem.2 hmem)]
  rfl

theorem getElem?_removeIds : ∀ (ids : List Uint256) {pool : CTxMemPool}, pool.Keyed hash →
    ∀ k : Uint256, (removeIds hash pool ids).mapTx[k]? = if k ∈ ids then none else pool.mapTx[k]?
  | [], pool, _, k => by simp [removeIds]
  | txid :: ids, pool, hk, k => by
    rw [removeIds, List.foldl_cons]
    cases hget : pool.mapTx[txid]? with
    | none =>
      refine (getElem?_removeIds ids hk k).trans ?_
      by_cases hkey : k = txid
      · subst hkey
        simp [hget]
      · simp [hkey]
    | some tx =>
      refine (getElem?_removeIds ids (hk.within (within_removeOne pool tx)) k).trans ?_
      have hid := hk txid tx hget
      rw [mapTx_removeOne (hid ▸ Tally.mem_of_getElem? hget), hid, getElem?_erase]
      by_cases hkey : k = txid
      · simp [hkey]
      · have hne : ¬ compare txid k = .eq := fun heq => hkey (Std.LawfulEqOrd.eq_of_compare heq).symm
        simp [hkey, hne]

/-- A removal of selected ids leaves no transaction without its inputs exactly if all spenders are
selected. -/
theorem leavesNone_removeIds_iff (hk : pool.Keyed hash) {ids : List Uint256} {selected : Uint256 → Prop}
    (hids : ∀ {h}, h ∈ pool.mapTx → (h ∈ ids ↔ selected h)) :
    LeavesNone pool (removeIds hash pool ids) ↔ pool.SpendersToo selected := by
  have hget := getElem?_removeIds ids hk
  constructor
  · intro hleaves h k parent tx o hparent hsel htx ho heq hn
    by_contra hnot
    have hgone : h ∉ (removeIds hash pool ids).mapTx := by
      rw [mem_iff_isSome_getElem?, hget,
        if_pos ((hids (Tally.mem_of_getElem? hparent)).2 hsel)]
      exact Bool.false_ne_true
    have hleft : (removeIds hash pool ids).mapTx[k]? = some tx := by
      rw [hget, if_neg fun hmem => hnot ((hids (Tally.mem_of_getElem? htx)).1 hmem), htx]
    have hle := hleaves hparent hgone hleft ho heq
    omega
  · intro hspenders h k parent tx o hparent hgone hleft ho heq
    by_contra hn
    have hsel : h ∈ ids := by
      by_contra hnot
      refine hgone (Tally.mem_of_getElem? (v := parent) ?_)
      rw [hget, if_neg hnot, hparent]
    rw [hget] at hleft
    split at hleft
    · cases hleft
    · next hnot =>
      refine hnot ((hids (Tally.mem_of_getElem? hleft)).2 ?_)
      exact hspenders hparent ((hids (Tally.mem_of_getElem? hparent)).1 hsel) hleft ho heq (by omega)

theorem mem_oldFeeless {nBestHeight : Int} {e : Int × Std.ExtTreeSet Uint256 compare} :
    e ∈ pool.oldFeeless nBestHeight ↔
      pool.mapFeeless[e.1]? = some e.2 ∧ FEELESS_MAX_DEPTH < nBestHeight - e.1 := by
  have hfirst : ∀ {a b : Int}, compare a b = .lt →
      (!decide (nBestHeight - b ≤ FEELESS_MAX_DEPTH)) = true →
      (!decide (nBestHeight - a ≤ FEELESS_MAX_DEPTH)) = true := by
    intro a b hlt hb
    have hab : a < b := Int.compare_eq_lt.1 hlt
    simp only [Bool.not_eq_eq_eq_not, Bool.not_true, decide_eq_false_iff_not, not_le] at hb ⊢
    omega
  rw [oldFeeless, Tally.mem_takeWhile_toList (p := fun nHeight =>
    !decide (nBestHeight - nHeight ≤ FEELESS_MAX_DEPTH)) hfirst]
  rw [← mem_toList_iff_getElem?_eq_some]
  simp only [Bool.not_eq_eq_eq_not, Bool.not_true, decide_eq_false_iff_not, not_le]

theorem mem_foldl_insertMany {α : Type} {l : List (α × Std.ExtTreeSet Uint256 compare)} {h : Uint256} :
    ∀ {ids : Std.ExtTreeSet Uint256 compare},
      h ∈ l.foldl (fun ids e => ids.insertMany e.2.toList) ids ↔ h ∈ ids ∨ ∃ e ∈ l, h ∈ e.2 := by
  induction l with
  | nil => simp
  | cons e l ih =>
    intro ids
    rw [List.foldl_cons, ih, Std.ExtTreeSet.mem_insertMany_list]
    simp [or_assoc]

/-- The removals of expired transactions leave no transaction whose inputs they drop, exactly if every
transaction of the pool that spends an output of an expired one has expired itself. -/
theorem leavesNone_expired_iff (hk : pool.Keyed hash) (nBestHeight : Int) (ctx : CheckCtx) (r : QPRegistry)
    (pindexBest : CBlockIndex) : (LeavesNone pool (removeOldFeeless hash nBestHeight pool).1 ↔
      pool.SpendersToo (pool.IsOldFeeless nBestHeight)) ∧
    (LeavesNone pool (removeInvalidPurchases hash ctx r pindexBest pool).1 ↔
      pool.SpendersToo (pool.HasInvalidPurchase ctx r pindexBest)) := by
  constructor
  · refine leavesNone_removeIds_iff hk fun {h} _ => ?_
    rw [Std.ExtTreeSet.mem_toList, mem_foldl_insertMany]
    simp only [Std.ExtTreeSet.not_mem_empty, false_or, mem_oldFeeless, IsOldFeeless, Prod.exists]
    exact exists₂_congr fun nHeight ids => by rw [and_assoc]
  · refine leavesNone_removeIds_iff hk fun {h} _ => ?_
    simp only [List.mem_map, List.mem_filter, mem_toList_iff_getElem?_eq_some,
      HasInvalidPurchase, Prod.exists, exists_and_right, exists_eq_right]

def feelessTx : CTransaction :=
  looseTx ⟨fundsId, 0⟩ [⟨10000000, 33 :: (claimantKey ++ [opCheckSig])⟩,
    ⟨0, 16 :: ([0, 0x58, 0x80, 0x40, 0, 0, 1, 0, 0, 0, 0, 0, 0, 0, 0, 1] ++ [opFeework])⟩]

def feelessSpender : CTransaction :=
  looseTx ⟨feelessTx.getHash rollingHash, 0⟩ [⟨9000000, 33 :: (claimantKey ++ [opCheckSig])⟩]

def feelessPool : CTxMemPool :=
  ((({} : CTxMemPool).accept poolEnv true feelessTx).2.accept poolEnv true feelessSpender).2

theorem passes_accept_accept (v : AcceptEnv hash) (tx tx' : CTransaction) :
    Passes applyOp pool [.accept v true tx, .accept v true tx']
      ((pool.accept v true tx).2.accept v true tx').2 :=
  ⟨_, List.prefix_rfl, rfl⟩

theorem passes_feelessPool :
    Passes applyOp {} [.accept poolEnv true feelessTx, .accept poolEnv true feelessSpender] feelessPool :=
  passes_accept_accept poolEnv feelessTx feelessSpender

theorem leavesNone_expired_feelessPool : feelessPool.Keyed rollingHash ∧
      (LeavesNone feelessPool (removeOldFeeless rollingHash 5800025 feelessPool).1 ↔
        feelessPool.SpendersToo (feelessPool.IsOldFeeless 5800025)) := by
  have hk : feelessPool.Keyed rollingHash := keyed_of_run passes_feelessPool
  exact ⟨hk, (leavesNone_expired_iff hk 5800025 claimantCtx claimantRegistry claimantTip).1⟩

/-- A transaction stays in the pool when the feeless one that it spends is removed. -/
theorem spender_left_in_pool :
    Passes applyOp {} [.accept poolEnv true feelessTx, .accept poolEnv true feelessSpender] feelessPool ∧
      ¬ LeavesNone feelessPool (removeOldFeeless rollingHash 5800025 feelessPool).1 := by
  refine ⟨passes_feelessPool, fun hleaves => ?_⟩
  have hparent : feelessPool.mapTx[feelessTx.getHash rollingHash]? = some feelessTx := by
    decide +kernel
  have hgone : (removeOldFeeless rollingHash 5800025 feelessPool).1.mapTx.contains
      (feelessTx.getHash rollingHash) = false := by
    decide +kernel
  have hleft : (removeOldFeeless rollingHash 5800025 feelessPool).1.mapTx[
      feelessSpender.getHash rollingHash]? = some feelessSpender := by
    decide +kernel
  have hmem : (⟨feelessTx.getHash rollingHash, 0⟩ : COutPoint) ∈ feelessSpender.prevouts := by
    exact List.mem_singleton_self _
  have hle := hleaves hparent (Tally.not_mem_of_contains hgone) hleft hmem (by dsimp only)
  exact absurd hle (by decide)

end CTxMemPool

end Stealth

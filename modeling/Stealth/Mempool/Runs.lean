import Stealth.Chain.Spends
import Stealth.Mempool.Accept
import Stealth.Mempool.Removal
import Stealth.Qpos.Accepted

/-!
Runs of the memory pool. `accept` writes the table of registrations before the last checks, and `clear` does
not empty it.
-/

namespace Stealth

open OptionFold

variable {S : Set CTransaction} {pool pool' : CTxMemPool}

/-- The operations of the pool, each with what it reads of the node. -/
inductive PoolOp (hash : Bytes → Uint256) where
  | accept (v : AcceptEnv hash) (fCheckInputs : Bool) (tx : CTransaction)
  | remove (fRecursive : Bool) (tx : CTransaction)
  | removeConflicts (tx : CTransaction)
  | removeOldFeeless (nBestHeight : Int)
  | removeInvalidPurchases (ctx : CheckCtx) (r : QPRegistry) (pindexBest : CBlockIndex)
  | clear

namespace PoolOp

variable {hash : Bytes → Uint256}

/-- The transactions that an operation takes from outside and looks up by id. -/
def txs : PoolOp hash → List CTransaction
  | .accept _ _ tx | .remove _ tx => [tx]
  | _ => []

def isRemoval : PoolOp hash → Bool
  | .accept .. | .clear => false
  | _ => true

end PoolOp

namespace CTxMemPool

variable {hash : Bytes → Uint256}

def applyOp (pool : CTxMemPool) : PoolOp hash → Option CTxMemPool
  | .accept v fCheckInputs tx => some (pool.accept v fCheckInputs tx).2
  | .remove fRecursive tx => remove hash fRecursive pool tx
  | .removeConflicts tx => removeConflicts hash pool tx
  | .removeOldFeeless nBestHeight => some (removeOldFeeless hash nBestHeight pool).1
  | .removeInvalidPurchases ctx r pindexBest => some (removeInvalidPurchases hash ctx r pindexBest pool).1
  | .clear => some pool.clear

section Accept

variable {v : AcceptEnv hash} {fCheckInputs : Bool} {pool : CTxMemPool} {tx : CTransaction}
  {mapNames : Map Bytes QposPurchase}

theorem checkRest_register (h : Uint256) (nValuePurchases : Int) :
    v.checkRest fCheckInputs (pool.register h mapNames) nValuePurchases tx =
      v.checkRest fCheckInputs pool nValuePurchases tx := by
  rw [register]
  split <;> rfl

theorem accept_cases (v : AcceptEnv hash) (fCheckInputs : Bool) (pool : CTxMemPool) (tx : CTransaction) :
    v.checkNames fCheckInputs pool tx = none ∧
      pool.accept v fCheckInputs tx = (.error .failed, pool) ∨
    ∃ mapNames, v.checkNames fCheckInputs pool tx = some mapNames ∧
      ((∃ e, v.checkRest fCheckInputs pool (purchasesValue mapNames) tx = .error e ∧
          pool.accept v fCheckInputs tx = (.error e, pool.register (tx.getHash hash) mapNames)) ∨
        ∃ feework, v.checkRest fCheckInputs pool (purchasesValue mapNames) tx = .ok feework ∧
          pool.accept v fCheckInputs tx =
            (.ok (), (pool.register (tx.getHash hash) mapNames).store (tx.getHash hash) tx feework)) := by
  unfold accept
  cases hnames : v.checkNames fCheckInputs pool tx with
  | none => exact .inl ⟨rfl, rfl⟩
  | some mapNames =>
    refine .inr ⟨mapNames, rfl, ?_⟩
    simp only [checkRest_register]
    cases hrest : v.checkRest fCheckInputs pool (purchasesValue mapNames) tx with
    | error e => exact .inl ⟨e, rfl, rfl⟩
    | ok feework => exact .inr ⟨feework, rfl, rfl⟩

theorem new_of_checkNames (hnames : v.checkNames fCheckInputs pool tx = some mapNames) :
    tx.getHash hash ∉ pool.mapTx ∧ tx.prevouts.Nodup ∧ (∀ o ∈ tx.prevouts, o ∉ pool.mapNextTx) ∧
      (mapNames.isEmpty = false → tx.getHash hash ∉ pool.mapRegistrations) := by
  rw [AcceptEnv.checkNames] at hnames
  split at hnames
  · next hnew =>
    obtain ⟨-, hfree⟩ := Option.filter_eq_some_iff.1 hnames
    simp only [AcceptEnv.isNew, checkTransaction, Bool.and_eq_true, decide_eq_true_eq] at hnew
    obtain ⟨⟨⟨⟨⟨⟨hcheck, -⟩, -⟩, -⟩, hhash⟩, -⟩, hnext⟩ := hnew
    refine ⟨Tally.not_mem_of_contains (by simpa using hhash), hcheck.1.2, by simpa using hnext, ?_⟩
    intro hnonempty
    simp only [AcceptEnv.namesAreFree, hnonempty, Bool.false_or, Bool.and_eq_true,
      Bool.not_eq_true'] at hfree
    exact Tally.not_mem_of_contains hfree.1
  · cases hnames

theorem mapTx_register (h : Uint256) : (pool.register h mapNames).mapTx = pool.mapTx := by
  rw [register]
  split <;> rfl

theorem mapNextTx_register (h : Uint256) : (pool.register h mapNames).mapNextTx = pool.mapNextTx := by
  rw [register]
  split <;> rfl

theorem mem_mapRegistrations_register {h k : Uint256} : k ∈ (pool.register h mapNames).mapRegistrations ↔
      mapNames.isEmpty = false ∧ k = h ∨ k ∈ pool.mapRegistrations := by
  rw [register]
  cases mapNames.isEmpty with
  | true => simp
  | false => simp [mem_insert, @eq_comm _ k]

theorem mapTx_store (h : Uint256) (feework : Feework) :
    (pool.store h tx feework).mapTx = pool.mapTx.insert h tx := by
  rw [store]
  split <;> rfl

theorem mapRegistrations_store (h : Uint256) (feework : Feework) :
    (pool.store h tx feework).mapRegistrations = pool.mapRegistrations := by
  rw [store]
  split <;> rfl

theorem Sound.accept (hs : Sound hash S pool) (htx : tx ∈ S) :
    Sound hash S (pool.accept v fCheckInputs tx).2 := by
  obtain ⟨-, heq⟩ | ⟨mapNames, hnames, ⟨e, -, heq⟩ | ⟨feework, -, heq⟩⟩ :=
    accept_cases v fCheckInputs pool tx <;> rw [heq]
  · exact hs
  · exact hs.congr (mapTx_register _) (mapNextTx_register _)
  · obtain ⟨hnew, hnodup, hfree, -⟩ := new_of_checkNames hnames
    have hregistered : Sound hash S (pool.register (tx.getHash hash) mapNames) :=
      hs.congr (mapTx_register _) (mapNextTx_register _)
    have hadd := hregistered.addUnchecked htx (by rwa [mapTx_register]) hnodup
      (by rwa [mapNextTx_register])
    rw [store]
    split
    · exact hadd.congr rfl rfl
    · exact hadd

end Accept

theorem applyOp_removal (hS : IdsFix hash S)
    (hs : Sound hash S pool) {op : PoolOp hash} (hop : ∀ tx ∈ op.txs, tx ∈ S)
    (hremoval : op.isRemoval = true) (happly : applyOp pool op = some pool') :
    ∃ q mapFeeless, Drops hash S pool q ∧ pool' = { q with mapFeeless := mapFeeless } := by
  cases op with
  | accept v fCheckInputs tx => cases hremoval
  | clear => cases hremoval
  | remove fRecursive tx =>
    exact ⟨pool', _, drops_remove hS hs (hop tx List.mem_cons_self) happly, rfl⟩
  | removeConflicts tx => exact ⟨pool', _, drops_removeConflicts hS hs happly, rfl⟩
  | removeOldFeeless nBestHeight =>
    cases happly
    exact ⟨_, _, drops_removeIds hS hs _, rfl⟩
  | removeInvalidPurchases ctx r pindexBest =>
    cases happly
    exact ⟨_, _, drops_removeIds hS hs _, rfl⟩

theorem Sound.applyOp (hS : IdsFix hash S)
    (hs : Sound hash S pool) {op : PoolOp hash} (hop : ∀ tx ∈ op.txs, tx ∈ S)
    (happly : applyOp pool op = some pool') : Sound hash S pool' := by
  cases hremoval : op.isRemoval with
  | true =>
    obtain ⟨q, mapFeeless, hdrops, rfl⟩ := applyOp_removal hS hs hop hremoval happly
    exact (hs.drops hS hdrops).congr rfl rfl
  | false =>
    cases op with
    | accept v fCheckInputs tx =>
      cases happly
      exact hs.accept (hop tx List.mem_cons_self)
    | clear =>
      cases happly
      exact sound_empty.congr rfl rfl
    | _ => cases hremoval

end CTxMemPool

/-- A transaction whose names are registered passes the later checks as well. -/
def AcceptEnv.keepsNames {hash : Bytes → Uint256} (v : AcceptEnv hash) (fCheckInputs : Bool)
    (pool : CTxMemPool) (tx : CTransaction) : Bool :=
  match v.checkNames fCheckInputs pool tx with
  | none => true
  | some mapNames =>
    mapNames.isEmpty || (v.checkRest fCheckInputs pool (CTxMemPool.purchasesValue mapNames) tx).isOk

namespace CTxMemPool

variable {hash : Bytes → Uint256}

theorem register_eq_self_iff {h : Uint256} {mapNames : Map Bytes QposPurchase}
    (hnew : mapNames.isEmpty = false → h ∉ pool.mapRegistrations) :
    pool.register h mapNames = pool ↔ mapNames.isEmpty = true := by
  constructor
  · intro heq
    by_contra hnonempty
    rw [Bool.not_eq_true] at hnonempty
    refine hnew hnonempty ?_
    rw [← heq]
    exact mem_mapRegistrations_register.2 (.inl ⟨hnonempty, rfl⟩)
  · intro hempty
    rw [register, if_pos hempty]

/-- A failed acceptance leaves the pool as it was exactly if it has not registered names. -/
theorem accept_unchanged_iff (v : AcceptEnv hash) (fCheckInputs : Bool) (pool : CTxMemPool)
    (tx : CTransaction) :
    ((pool.accept v fCheckInputs tx).1 ≠ .ok () → (pool.accept v fCheckInputs tx).2 = pool) ↔
      v.keepsNames fCheckInputs pool tx = true := by
  unfold AcceptEnv.keepsNames
  obtain ⟨hnames, heq⟩ | ⟨mapNames, hnames, ⟨e, hrest, heq⟩ | ⟨feework, hrest, heq⟩⟩ :=
    accept_cases v fCheckInputs pool tx
  · simp [heq, hnames]
  · obtain ⟨-, -, -, hnew⟩ := new_of_checkNames hnames
    simp [heq, hnames, hrest, Except.isOk, Except.toBool, register_eq_self_iff hnew]
  · simp [heq, hnames, hrest, Except.isOk, Except.toBool]

end CTxMemPool

def fundsTx : CTransaction where
  nVersion := 4
  nTime := 0
  vin := [⟨⟨9, 0⟩, [], 0xffffffff⟩]
  vout := List.replicate 3 ⟨10000000, 33 :: (claimantKey ++ [opCheckSig])⟩
  nLockTime := 0

def fundsId : Uint256 := fundsTx.getHash rollingHash

def looseTx (prevout : COutPoint) (vout : List CTxOut) : CTransaction :=
  ⟨4, 0, [⟨prevout, [1, 0x30], 0xffffffff⟩], vout, 0⟩

def looseClaim (n : UInt32) : CTransaction := looseTx ⟨fundsId, n⟩ (claimantTx n).vout

def loosePurchase (prevout : COutPoint) : CTransaction :=
  looseTx prevout [⟨0, 57 :: ([0, 0, 0, 0, 0, 0x4c, 0x4b, 0x40] ++ claimantKey ++
    ([108, 111, 110, 101] ++ List.replicate 12 0) ++ [opPurchase1])⟩]

/-- A node that has the confirmed transaction, with the registry of a key with 7 coins. -/
def poolEnv : AcceptEnv rollingHash where
  E := { minedEnv with now := 1700000000, readTx := fun _ => some fundsTx }
  hash_eq := rfl
  crypto := ownCrypto
  disk := fun
    | .tx h => if h = fundsId then some (CTxIndex.unspent ⟨1, 1000, 80⟩ 3) else none
    | _ => none
  registry := claimantRegistry
  nBestHeight := 5800000
  pindexBest := claimantTip
  pmemIndexBest := [⟨5, 1, 900⟩]
  blockOf _ := some 5
  isInMainChain _ := some true
  depthInMainChain _ := 1
  argon2d _ data work := UInt64.ofNat data.length + work

namespace CTxMemPool

/-- A purchase without its inputs is refused, and its name is taken. -/
theorem accept_leaves_name : (({} : CTxMemPool).accept poolEnv true (loosePurchase ⟨7, 0⟩)).1 ≠ .ok () ∧
      (({} : CTxMemPool).accept poolEnv true (loosePurchase ⟨7, 0⟩)).2 ≠ {} := by
  have hfail : (({} : CTxMemPool).accept poolEnv true (loosePurchase ⟨7, 0⟩)).1.isOk = false := by
    decide +kernel
  have hname : (({} : CTxMemPool).accept poolEnv true
      (loosePurchase ⟨7, 0⟩)).2.mapRegistrations.isEmpty = false := by decide +kernel
  constructor
  · intro heq
    rw [heq] at hfail
    cases hfail
  · intro heq
    rw [heq] at hname
    cases hname

variable {hash : Bytes → Uint256}

def Registered (pool : CTxMemPool) : Prop := ∀ h ∈ pool.mapRegistrations, h ∈ pool.mapTx

/-- The index of spenders has one entry for each input of each transaction, no two transactions spend one
outpoint, and every registration belongs to a transaction of the pool. -/
structure Consistent (pool : CTxMemPool) : Prop where
  next : ∀ (o : COutPoint) (h : Uint256) (n : Nat), pool.mapNextTx[o]? = some (h, n) ↔
    ∃ tx : CTransaction, pool.mapTx[h]? = some tx ∧ tx.prevouts[n]? = some o
  spenders : ∀ {h h' : Uint256} {tx tx' : CTransaction} {o : COutPoint}, pool.mapTx[h]? = some tx →
    o ∈ tx.prevouts → pool.mapTx[h']? = some tx' → o ∈ tx'.prevouts → h = h'
  registrations : pool.Registered

theorem Sound.consistent_iff (hs : Sound hash S pool) : pool.Consistent ↔ pool.Registered :=
  ⟨fun h => h.registrations, fun h => ⟨hs.indexes, hs.indexes.user_unique, h⟩⟩

theorem Registered.removeOne (hr : pool.Registered) (tx : CTransaction) :
    (removeOne hash pool tx).Registered := by
  intro k hk
  have hmem : ¬ compare (tx.getHash hash) k = .eq ∧ k ∈ pool.mapRegistrations := by
    rw [CTxMemPool.removeOne] at hk
    split at hk <;> exact Std.ExtTreeMap.mem_erase.1 hk
  rw [CTxMemPool.removeOne]
  split
  · exact Std.ExtTreeMap.mem_erase.2 ⟨hmem.1, hr k hmem.2⟩
  · exact hr k hmem.2

theorem Registered.drops (hr : pool.Registered) (hdrops : Drops hash S pool pool') : pool'.Registered := by
  induction hdrops with
  | refl => exact hr
  | tail _ hdrop ih =>
    obtain ⟨tx, -, rfl⟩ := hdrop
    exact ih.removeOne tx

theorem Registered.accept_iff (hr : pool.Registered) (v : AcceptEnv hash)
    (fCheckInputs : Bool) (tx : CTransaction) :
    (pool.accept v fCheckInputs tx).2.Registered ↔ v.keepsNames fCheckInputs pool tx = true := by
  unfold AcceptEnv.keepsNames
  obtain ⟨hnames, heq⟩ | ⟨mapNames, hnames, ⟨e, hrest, heq⟩ | ⟨feework, hrest, heq⟩⟩ :=
    accept_cases v fCheckInputs pool tx
  · simp only [heq, hnames]
    exact iff_of_true hr trivial
  · obtain ⟨hnew, -⟩ := new_of_checkNames hnames
    simp only [heq, hnames, hrest, Except.isOk, Except.toBool, Bool.or_false]
    constructor
    · intro hr'
      by_contra hnonempty
      rw [Bool.not_eq_true] at hnonempty
      have hmem := hr' _ (mem_mapRegistrations_register.2 (.inl ⟨hnonempty, rfl⟩))
      rw [mapTx_register] at hmem
      exact hnew hmem
    · intro hempty
      rwa [register, if_pos hempty]
  · simp only [heq, hnames, hrest, Except.isOk, Except.toBool, Bool.or_true, iff_true]
    intro k hk
    rw [mapRegistrations_store] at hk
    rw [mapTx_store, mapTx_register, mem_insert]
    obtain ⟨-, rfl⟩ | hk := mem_mapRegistrations_register.1 hk
    · exact .inl Std.ReflCmp.compare_self
    · exact .inr (hr k hk)

end CTxMemPool

def PoolOp.keepsRegistrations {hash : Bytes → Uint256} (pool : CTxMemPool) : PoolOp hash → Bool
  | .accept v fCheckInputs tx => v.keepsNames fCheckInputs pool tx
  | .clear => pool.mapRegistrations.isEmpty
  | _ => true

namespace CTxMemPool

variable {hash : Bytes → Uint256}

theorem Registered.applyOp_iff (hS : IdsFix hash S)
    (hs : Sound hash S pool) (hr : pool.Registered) {op : PoolOp hash} (hop : ∀ tx ∈ op.txs, tx ∈ S)
    (happly : applyOp pool op = some pool') : pool'.Registered ↔ op.keepsRegistrations pool = true := by
  cases hremoval : op.isRemoval with
  | true =>
    obtain ⟨q, mapFeeless, hdrops, rfl⟩ := applyOp_removal hS hs hop hremoval happly
    have hkeeps : op.keepsRegistrations pool = true := by
      cases op with
      | accept v fCheckInputs tx => cases hremoval
      | clear => cases hremoval
      | _ => rfl
    have hq : q.Registered := hr.drops hdrops
    exact iff_of_true hq hkeeps
  | false =>
    cases op with
    | accept v fCheckInputs tx =>
      cases happly
      exact hr.accept_iff v fCheckInputs tx
    | clear =>
      cases happly
      rw [PoolOp.keepsRegistrations, Std.ExtTreeMap.isEmpty_iff,
        Std.ExtTreeMap.eq_empty_iff_forall_not_mem]
      exact forall_congr' fun k => by simp [clear]
    | _ => cases hremoval

def runTxs (ops : List (PoolOp hash)) : Set CTransaction := {tx | ∃ op ∈ ops, tx ∈ op.txs}

end CTxMemPool

namespace CTransaction

theorem prevouts_idForm_wire (tx : CTransaction) : tx.idForm.wire.prevouts = tx.prevouts := by
  simp only [prevouts, wire, idForm, blankSigs]
  split_ifs <;> simp

theorem vout_idForm_wire (tx : CTransaction) : tx.idForm.wire.vout = tx.vout := by
  simp only [wire, idForm, blankSigs]
  split_ifs <;> rfl

end CTransaction

namespace CTxMemPool

variable {hash : Bytes → Uint256}

theorem idsFix_of_injOn (hinj : Set.InjOn hash ((fun tx : CTransaction => tx.idForm.serialize) '' S))
    (hsized : ∀ tx ∈ S, tx.Sized) : IdsFix hash S := by
  intro a ha b hb heq
  have hserialize := hinj ⟨a, ha, rfl⟩ ⟨b, hb, rfl⟩ heq
  have hwire := CTransaction.wire_eq_of_serialize_eq (hsized a ha).idForm (hsized b hb).idForm hserialize
  constructor
  · rw [← a.prevouts_idForm_wire, hwire, b.prevouts_idForm_wire]
  · rw [← a.vout_idForm_wire, hwire, b.vout_idForm_wire]

/-- Transactions, spenders and registrations fit together at every moment of a run exactly if every
acceptance that registers names succeeds and the pool is cleared only without registrations. The index of
spenders fits in any case. -/
theorem consistent_run_iff {ops : List (PoolOp hash)}
    (hinj : Set.InjOn hash ((fun tx : CTransaction => tx.idForm.serialize) '' runTxs ops))
    (hsized : ∀ tx ∈ runTxs ops, tx.Sized) :
    (∀ pool, Passes applyOp {} ops pool → ∀ (o : COutPoint) (h : Uint256) (n : Nat),
      pool.mapNextTx[o]? = some (h, n) ↔
        ∃ tx : CTransaction, pool.mapTx[h]? = some tx ∧ tx.prevouts[n]? = some o) ∧
    ((∀ pool, Passes applyOp {} ops pool → pool.Consistent) ↔
      ∀ pool op, Takes applyOp {} ops pool op → op.keepsRegistrations pool = true) := by
  have hS := idsFix_of_injOn hinj hsized
  have hop : ∀ {op : PoolOp hash}, op ∈ ops → ∀ tx ∈ op.txs, tx ∈ runTxs ops :=
    fun hmem tx htx => ⟨_, hmem, htx⟩
  have hsound : ∀ pool, Passes applyOp {} ops pool → Sound hash (runTxs ops) pool := fun pool =>
    passes_invariant (fun hmem hs happly => hs.applyOp hS (hop hmem) happly) sound_empty
  refine ⟨fun pool hpasses => (hsound pool hpasses).indexes, ?_⟩
  rw [← forall_passes_iff (I := Sound hash (runTxs ops)) (P := Registered)
    (fun hmem hs happly => hs.applyOp hS (hop hmem) happly)
    (fun hmem hs hr happly => hr.applyOp_iff hS hs (hop hmem) happly) ?_ sound_empty (by simp [Registered])]
  · exact forall₂_congr fun pool hpasses => (hsound pool hpasses).consistent_iff
  · intro pool op hnone
    cases op with
    | accept v fCheckInputs tx => cases hnone
    | clear => cases hnone
    | _ => rfl

def looseRun : List (PoolOp rollingHash) :=
  [.accept poolEnv true (looseClaim 0), .accept poolEnv true (loosePurchase ⟨fundsId, 1⟩),
    .remove true (looseClaim 0)]

theorem mem_runTxs_looseRun {tx : CTransaction} (htx : tx ∈ runTxs looseRun) :
    tx = looseClaim 0 ∨ tx = loosePurchase ⟨fundsId, 1⟩ := by
  simp only [runTxs, looseRun, List.mem_cons, List.not_mem_nil, or_false, Set.mem_ofPred_eq] at htx
  obtain ⟨op, rfl | rfl | rfl, htx⟩ := htx <;> simp only [PoolOp.txs, List.mem_singleton] at htx
  · exact .inl htx
  · exact .inr htx
  · exact .inl htx

theorem consistent_looseRun :
    Set.InjOn rollingHash ((fun tx : CTransaction => tx.idForm.serialize) '' runTxs looseRun) ∧
      (∀ tx ∈ runTxs looseRun, tx.Sized) ∧
      ∀ pool, Passes applyOp {} looseRun pool → pool.Consistent := by
  have hinj : Set.InjOn rollingHash
      ((fun tx : CTransaction => tx.idForm.serialize) '' runTxs looseRun) := by
    rintro _ ⟨a, ha, rfl⟩ _ ⟨b, hb, rfl⟩ heq
    obtain rfl | rfl := mem_runTxs_looseRun ha <;> obtain rfl | rfl := mem_runTxs_looseRun hb
    · rfl
    · exact absurd heq (by decide +kernel)
    · exact absurd heq (by decide +kernel)
    · rfl
  have hsized : ∀ tx ∈ runTxs looseRun, tx.Sized := by
    intro tx htx
    obtain rfl | rfl := mem_runTxs_looseRun htx
    · exact ⟨by decide, by decide, by decide +kernel, by decide +kernel⟩
    · exact ⟨by decide, by decide, by decide +kernel, by decide +kernel⟩
  refine ⟨hinj, hsized, (consistent_run_iff hinj hsized).2.2 fun pool op htakes => ?_⟩
  -- the purchase passes all checks in the pool that has the claim
  have hkeeps : (PoolOp.accept poolEnv true (loosePurchase ⟨fundsId, 1⟩)).keepsRegistrations
      (({} : CTxMemPool).accept poolEnv true (looseClaim 0)).2 = true := by decide +kernel
  obtain ⟨rfl, rfl⟩ | ⟨p₁, h₁, htakes⟩ := takes_cons.1 htakes
  · decide +kernel
  · obtain ⟨hpool, rfl⟩ | ⟨p₂, -, htakes⟩ := takes_cons.1 htakes
    · rw [hpool, ← Option.some.inj h₁]
      exact hkeeps
    · obtain ⟨-, rfl⟩ | ⟨p₃, -, htakes⟩ := takes_cons.1 htakes
      · rfl
      · exact absurd htakes not_takes_nil

/-- The name of a purchase that is not in the pool stays registered. -/
theorem name_without_purchase :
    ∃ pool, Passes applyOp {} [.accept poolEnv true (loosePurchase ⟨7, 0⟩)] pool ∧ ¬ pool.Consistent := by
  refine ⟨_, ⟨_, List.prefix_rfl, rfl⟩, fun hc => ?_⟩
  have hmem : (loosePurchase ⟨7, 0⟩).getHash rollingHash ∈ (({} : CTxMemPool).accept poolEnv true
      (loosePurchase ⟨7, 0⟩)).2.mapRegistrations := by
    rw [← contains_iff_mem]
    decide +kernel
  have hgone : (({} : CTxMemPool).accept poolEnv true (loosePurchase ⟨7, 0⟩)).2.mapTx.isEmpty = true := by
    decide +kernel
  have hin := hc.registrations _ hmem
  rw [Std.ExtTreeMap.isEmpty_iff.1 hgone] at hin
  exact Std.ExtTreeMap.not_mem_empty hin

end CTxMemPool

end Stealth

import Stealth.Mempool.Pool

/-! What removals keep. Every removal is a row of removals of single transactions. -/

namespace Stealth.CTxMemPool

open ReverseIndex

variable {recurse : CTxMemPool → CTransaction → Option CTxMemPool}

theorem getElem?_mapTx_eraseTx (pool : CTxMemPool) (h : Uint256) (tx : CTransaction) :
    (fun k => (pool.eraseTx h tx).mapTx[k]?) = Function.update (fun k => pool.mapTx[k]?) h none := by
  funext k
  rw [eraseTx, getElem?_erase, Function.update_apply]
  exact if_congr (Std.LawfulEqOrd.compare_eq_iff_eq.trans eq_comm) rfl rfl

theorem getElem?_mapNextTx_eraseTx (pool : CTxMemPool) (h : Uint256) (tx : CTransaction) :
    (fun o => (pool.eraseTx h tx).mapNextTx[o]?) =
      released tx.prevouts fun o => pool.mapNextTx[o]? := by
  funext o
  exact Tally.getElem?_foldl_erase o tx.prevouts pool.mapNextTx

theorem getElem?_mapTx_addUnchecked (pool : CTxMemPool) (h : Uint256) (tx : CTransaction) :
    (fun k => (pool.addUnchecked h tx).mapTx[k]?) =
      Function.update (fun k => pool.mapTx[k]?) h (some tx) := by
  funext k
  rw [addUnchecked, getElem?_insert, Function.update_apply]
  exact if_congr (Std.LawfulEqOrd.compare_eq_iff_eq.trans eq_comm) rfl rfl

theorem getElem?_mapNextTx_addUnchecked (pool : CTxMemPool) (h : Uint256) {tx : CTransaction}
    (hnodup : tx.prevouts.Nodup) : (fun o => (pool.addUnchecked h tx).mapNextTx[o]?) =
      entered tx.prevouts h fun o => pool.mapNextTx[o]? := by
  have hkeys : (tx.prevouts.zipIdx.map fun p => (p.1, (h, p.2))).map Prod.fst = tx.prevouts := by
    rw [List.map_map]
    exact List.zipIdx_map_fst 0 tx.prevouts
  funext o
  rw [entered]
  split
  · next hmem =>
    refine Std.ExtTreeMap.getElem?_insertMany_list_of_mem (k := o) Std.ReflCmp.compare_self ?_ ?_
    · rw [← List.pairwise_map (f := Prod.fst) (R := fun a b => ¬ compare a b = .eq), hkeys]
      exact hnodup.imp fun hne heq => hne (Std.LawfulEqOrd.eq_of_compare heq)
    · refine List.mem_map.2 ⟨(o, tx.prevouts.idxOf o), ?_, rfl⟩
      exact List.mem_zipIdx_iff_getElem?.2 (List.getElem?_idxOf hmem)
  · next hmem =>
    refine Std.ExtTreeMap.getElem?_insertMany_list_of_contains_eq_false ?_
    rw [hkeys]
    simpa using hmem

/-- A transaction is stored under its id, and the index of spenders has an entry for each input of each
transaction, and no other. -/
structure Coherent (hash : Bytes → Uint256) (pool : CTxMemPool) : Prop where
  keyed : ∀ {h : Uint256} {tx : CTransaction}, pool.mapTx[h]? = some tx → tx.getHash hash = h
  indexes : Indexes CTransaction.prevouts (fun h => pool.mapTx[h]?) fun o => pool.mapNextTx[o]?

/-- The id of a transaction in `S` fixes the outpoints that it spends, and its outputs. -/
def IdsFix (hash : Bytes → Uint256) (S : Set CTransaction) : Prop :=
  ∀ ⦃a⦄, a ∈ S → ∀ ⦃b⦄, b ∈ S → a.getHash hash = b.getHash hash →
    a.prevouts = b.prevouts ∧ a.vout = b.vout

/-- A coherent pool of transactions from `S`. -/
structure Sound (hash : Bytes → Uint256) (S : Set CTransaction) (pool : CTxMemPool) : Prop
    extends Coherent hash pool where
  known : ∀ {h : Uint256} {tx : CTransaction}, pool.mapTx[h]? = some tx → tx ∈ S

variable {hash : Bytes → Uint256} {S : Set CTransaction} {pool pool' : CTxMemPool} {tx : CTransaction}
  {h : Uint256}

theorem sound_empty : Sound hash S {} where
  keyed hget := by simp at hget
  indexes := by simpa using Indexes.empty
  known hget := by simp at hget

theorem Sound.congr (hs : Sound hash S pool) (htx : pool'.mapTx = pool.mapTx)
    (hnext : pool'.mapNextTx = pool.mapNextTx) : Sound hash S pool' := by
  refine ⟨⟨?_, ?_⟩, ?_⟩
  · rw [htx]
    exact hs.keyed
  · rw [htx, hnext]
    exact hs.indexes
  · rw [htx]
    exact hs.known

theorem Sound.eraseTx (hS : IdsFix hash S) (hs : Sound hash S pool) (htx : tx ∈ S)
    (hpool : tx.getHash hash ∈ pool.mapTx) : Sound hash S (pool.eraseTx (tx.getHash hash) tx) := by
  obtain ⟨txPool, hget⟩ := Tally.exists_getElem? hpool
  have hsame : tx.prevouts = txPool.prevouts := (hS htx (hs.known hget) (hs.keyed hget).symm).1
  -- what is left was there before
  have hold : ∀ {k : Uint256} {tx' : CTransaction}, (pool.eraseTx (tx.getHash hash) tx).mapTx[k]? = some tx' →
      pool.mapTx[k]? = some tx' := by
    intro k tx' hget'
    rw [CTxMemPool.eraseTx, getElem?_erase] at hget'
    split at hget'
    · cases hget'
    · exact hget'
  refine ⟨⟨fun hget' => hs.keyed (hold hget'), ?_⟩, fun hget' => hs.known (hold hget')⟩
  rw [getElem?_mapTx_eraseTx, getElem?_mapNextTx_eraseTx, hsame]
  exact hs.indexes.release hget

theorem Sound.addUnchecked (hs : Sound hash S pool) (htx : tx ∈ S) (hnew : tx.getHash hash ∉ pool.mapTx)
    (hnodup : tx.prevouts.Nodup) (hfree : ∀ o ∈ tx.prevouts, o ∉ pool.mapNextTx) :
    Sound hash S (pool.addUnchecked (tx.getHash hash) tx) := by
  have hcases : ∀ {k : Uint256} {tx' : CTransaction}, (pool.addUnchecked (tx.getHash hash) tx).mapTx[k]? = some tx' →
      k = tx.getHash hash ∧ tx' = tx ∨ pool.mapTx[k]? = some tx' := by
    intro k tx' hget
    rw [CTxMemPool.addUnchecked, getElem?_insert] at hget
    split at hget
    · next heq =>
      cases hget
      exact .inl ⟨(Std.LawfulEqOrd.eq_of_compare heq).symm, rfl⟩
    · exact .inr hget
  refine ⟨⟨?_, ?_⟩, ?_⟩
  · intro k tx' hget
    obtain ⟨rfl, rfl⟩ | hget := hcases hget
    · rfl
    · exact hs.keyed hget
  · rw [getElem?_mapTx_addUnchecked, getElem?_mapNextTx_addUnchecked pool _ hnodup]
    refine hs.indexes.enter ?_ hnodup fun o ho => ?_
    · exact getElem?_eq_none hnew
    · exact getElem?_eq_none (hfree o ho)
  · intro k tx' hget
    obtain ⟨rfl, rfl⟩ | hget := hcases hget
    · exact htx
    · exact hs.known hget

def Drop (hash : Bytes → Uint256) (S : Set CTransaction) (pool pool' : CTxMemPool) : Prop :=
  ∃ tx ∈ S, pool' = removeOne hash pool tx

def Drops (hash : Bytes → Uint256) (S : Set CTransaction) : CTxMemPool → CTxMemPool → Prop :=
  Relation.ReflTransGen (Drop hash S)

theorem Sound.drop (hS : IdsFix hash S) (hs : Sound hash S pool) (hdrop : Drop hash S pool pool') :
    Sound hash S pool' := by
  obtain ⟨tx, htx, rfl⟩ := hdrop
  rw [removeOne]
  by_cases hpool : tx.getHash hash ∈ pool.mapTx
  · rw [if_pos (contains_iff_mem.2 hpool)]
    exact (hs.eraseTx hS htx hpool).congr rfl rfl
  · rw [if_neg (by simpa using hpool)]
    exact hs.congr rfl rfl

theorem Sound.drops (hS : IdsFix hash S) (hs : Sound hash S pool) (hdrops : Drops hash S pool pool') :
    Sound hash S pool' := by
  induction hdrops with
  | refl => exact hs
  | tail _ hdrop ih => exact ih.drop hS hdrop

/-- The first three tables have no entries but those of another pool. -/
structure Within (pool' pool : CTxMemPool) : Prop where
  txs : ∀ {h : Uint256} {tx : CTransaction}, pool'.mapTx[h]? = some tx → pool.mapTx[h]? = some tx
  next : ∀ {o : COutPoint} {it : CInPoint}, pool'.mapNextTx[o]? = some it → pool.mapNextTx[o]? = some it
  claims : ∀ {h : Uint256} {key : CPubKey}, pool'.mapClaims[h]? = some key → pool.mapClaims[h]? = some key

theorem Within.refl (pool : CTxMemPool) : Within pool pool := ⟨id, id, id⟩

theorem Within.trans {p₁ p₂ p₃ : CTxMemPool} (h₁ : Within p₁ p₂) (h₂ : Within p₂ p₃) : Within p₁ p₃ :=
  ⟨fun hget => h₂.txs (h₁.txs hget), fun hget => h₂.next (h₁.next hget),
    fun hget => h₂.claims (h₁.claims hget)⟩

theorem within_forget (pool : CTxMemPool) (h : Uint256) : Within (pool.forget h) pool where
  txs := id
  next := id
  claims hget := by
    rw [forget, getElem?_erase] at hget
    split at hget
    · cases hget
    · exact hget

theorem within_eraseTx (pool : CTxMemPool) (h : Uint256) (tx : CTransaction) :
    Within (pool.eraseTx h tx) pool where
  txs hget := by
    rw [eraseTx, getElem?_erase] at hget
    split at hget
    · cases hget
    · exact hget
  next hget := by
    rw [eraseTx, Tally.getElem?_foldl_erase] at hget
    split at hget
    · cases hget
    · exact hget
  claims := id

theorem within_removeOne (pool : CTxMemPool) (tx : CTransaction) : Within (removeOne hash pool tx) pool := by
  rw [removeOne]
  split
  · exact (within_forget _ _).trans (within_eraseTx pool _ tx)
  · exact within_forget pool _

theorem Drops.within (hdrops : Drops hash S pool pool') : Within pool' pool := by
  induction hdrops with
  | refl => exact .refl pool
  | tail _ hdrop ih =>
    obtain ⟨tx, -, rfl⟩ := hdrop
    exact (within_removeOne _ tx).trans ih

theorem removeSpender_cases {i : Nat} (hstep : removeSpender recurse h pool i = some pool') :
    pool.mapNextTx[(⟨h, UInt32.ofNat i⟩ : COutPoint)]? = none ∧ pool' = pool ∨
      ∃ it child, pool.mapNextTx[(⟨h, UInt32.ofNat i⟩ : COutPoint)]? = some it ∧
        pool.mapTx[it.1]? = some child ∧ recurse pool child = some pool' := by
  rw [removeSpender] at hstep
  split at hstep
  · next hnext =>
    cases hstep
    exact .inl ⟨hnext, rfl⟩
  · next it hnext =>
    obtain ⟨child, hget, hchild⟩ := Option.bind_eq_some_iff.1 hstep
    exact .inr ⟨it, child, hnext, hget, hchild⟩

variable {l : List Nat} {fRecursive : Bool} {R : CTxMemPool → Prop}

theorem within_spenders (hrecurse : ∀ {p p' child}, recurse p child = some p' → Within p' p)
    (hfold : l.foldlM (removeSpender recurse h) pool = some pool') : Within pool' pool := by
  refine OptionFold.foldlM_invariant (P := fun q => Within q pool) ?_ (.refl pool) hfold
  intro q i q' hq hstep
  obtain ⟨-, rfl⟩ | ⟨it, child, -, -, hchild⟩ := removeSpender_cases hstep
  · exact hq
  · exact (hrecurse hchild).trans hq

theorem within_removeTree : ∀ {n : Nat} {pool pool' : CTxMemPool} {tx : CTransaction},
    removeTree hash n pool tx = some pool' → Within pool' pool
  | 0, _, _, _, hremove => by cases hremove
  | n + 1, pool, pool', tx, hremove => by
    rw [removeTree] at hremove
    split at hremove
    · obtain ⟨q, hfold, rfl⟩ := Option.map_eq_some_iff.1 hremove
      exact ((within_forget _ _).trans (within_eraseTx q _ tx)).trans
        (within_spenders within_removeTree hfold)
    · cases hremove
      exact within_forget pool _

/-- Erasing a transaction that has left the pool changes nothing: its inputs have left the index. -/
theorem eraseTx_of_removed (hs : Sound hash S pool) (hS : IdsFix hash S) (htx : tx ∈ S)
    (hpool : tx.getHash hash ∈ pool.mapTx) (hs' : Sound hash S pool') (hw : Within pool' pool)
    (hgone : tx.getHash hash ∉ pool'.mapTx) : pool'.eraseTx (tx.getHash hash) tx = pool' := by
  obtain ⟨txPool, hget⟩ := Tally.exists_getElem? hpool
  have hsame : tx.prevouts = txPool.prevouts := (hS htx (hs.known hget) (hs.keyed hget).symm).1
  refine CTxMemPool.ext ?_ ?_ rfl rfl rfl
  · refine ext_getElem? fun k => ?_
    rw [eraseTx, getElem?_erase]
    split
    · next heq =>
      rw [← Std.LawfulEqOrd.eq_of_compare heq, getElem?_eq_none hgone]
    · rfl
  · refine ext_getElem? fun o => ?_
    rw [eraseTx, Tally.getElem?_foldl_erase]
    split
    · next hmem =>
      cases hnext : pool'.mapNextTx[o]? with
      | none => rfl
      | some it =>
        -- the spender of the outpoint is the transaction itself
        obtain ⟨txNext, hgetNext, hmemNext⟩ := hs'.indexes.exists_user hnext
        have hkey := hs.indexes.user_unique (hw.txs hgetNext) hmemNext hget (hsame ▸ hmem)
        rw [hkey] at hgetNext
        exact absurd (Tally.mem_of_getElem? hgetNext) hgone
    · rfl

theorem drops_spenders (hS : IdsFix hash S) (hs : Sound hash S pool)
    (hrecurse : ∀ {p p' child}, Sound hash S p → child ∈ S → recurse p child = some p' →
      Drops hash S p p')
    (hfold : l.foldlM (removeSpender recurse h) pool = some pool') : Drops hash S pool pool' := by
  refine OptionFold.foldlM_invariant (P := fun q => Drops hash S pool q) ?_ .refl hfold
  intro q i q' hq hstep
  obtain ⟨-, rfl⟩ | ⟨it, child, -, hget, hchild⟩ := removeSpender_cases hstep
  · exact hq
  · have hsq := hs.drops hS hq
    exact hq.trans (hrecurse hsq (hsq.known hget) hchild)

theorem drops_removeTree (hS : IdsFix hash S) : ∀ {n : Nat} {pool pool' : CTxMemPool}
    {tx : CTransaction}, Sound hash S pool → tx ∈ S → removeTree hash n pool tx = some pool' →
    Drops hash S pool pool'
  | 0, _, _, _, _, _, hremove => by cases hremove
  | n + 1, pool, pool', tx, hs, htx, hremove => by
    rw [removeTree] at hremove
    split at hremove
    · next hpool =>
      obtain ⟨q, hfold, rfl⟩ := Option.map_eq_some_iff.1 hremove
      have hq := drops_spenders hS hs (drops_removeTree hS) hfold
      refine hq.tail ⟨tx, htx, ?_⟩
      rw [removeOne]
      split
      · rfl
      · next hgone =>
        rw [eraseTx_of_removed hs hS htx (contains_iff_mem.1 hpool) (hs.drops hS hq)
          hq.within (by simpa using hgone)]
    · next hpool =>
      cases hremove
      refine .single ⟨tx, htx, ?_⟩
      rw [removeOne, if_neg hpool]

theorem within_remove (hremove : remove hash fRecursive pool tx = some pool') : Within pool' pool := by
  cases fRecursive with
  | false =>
    cases hremove
    exact within_removeOne pool tx
  | true => exact within_removeTree hremove

theorem drops_remove (hS : IdsFix hash S) (hs : Sound hash S pool) (htx : tx ∈ S)
    (hremove : remove hash fRecursive pool tx = some pool') : Drops hash S pool pool' := by
  cases fRecursive with
  | false =>
    cases hremove
    exact .single ⟨tx, htx, rfl⟩
  | true => exact drops_removeTree hS hs htx hremove

theorem removeConflicts_induction (hpool : R pool)
    (hstep : ∀ {q q' : CTxMemPool} {k : Uint256} {txConflict : CTransaction}, R q → q.mapTx[k]? = some txConflict →
      remove hash true q txConflict = some q' → R q')
    (hremove : removeConflicts hash pool tx = some pool') : R pool' := by
  refine OptionFold.foldlM_invariant (P := R) ?_ hpool hremove
  intro q txin q' hq hq'
  split at hq'
  · cases hq'
    exact hq
  · obtain ⟨txConflict, hget, hq'⟩ := Option.bind_eq_some_iff.1 hq'
    split at hq'
    · cases hq'
      exact hq
    · exact hstep hq hget hq'

theorem within_removeConflicts (hremove : removeConflicts hash pool tx = some pool') : Within pool' pool :=
  removeConflicts_induction (R := fun q => Within q pool) (.refl pool)
    (fun hq _ hq' => (within_remove hq').trans hq) hremove

theorem drops_removeConflicts (hS : IdsFix hash S) (hs : Sound hash S pool)
    (hremove : removeConflicts hash pool tx = some pool') : Drops hash S pool pool' := by
  refine removeConflicts_induction (R := fun q => Drops hash S pool q) .refl ?_ hremove
  intro q q' k txConflict hq hget hq'
  have hsq := hs.drops hS hq
  exact hq.trans (drops_remove hS hsq (hsq.known hget) hq')

theorem removeIds_induction (hpool : R pool)
    (hstep : ∀ {q : CTxMemPool} {k : Uint256} {tx : CTransaction}, R q → q.mapTx[k]? = some tx →
      R (removeOne hash q tx))
    (ids : List Uint256) : R (removeIds hash pool ids) := by
  induction ids generalizing pool with
  | nil => exact hpool
  | cons txid ids ih =>
    rw [removeIds, List.foldl_cons]
    refine ih ?_
    split
    · exact hpool
    · next hget => exact hstep hpool hget

theorem within_removeIds (ids : List Uint256) : Within (removeIds hash pool ids) pool :=
  removeIds_induction (R := fun q => Within q pool) (.refl pool)
    (fun hq _ => (within_removeOne _ _).trans hq) ids

theorem drops_removeIds (hS : IdsFix hash S) (hs : Sound hash S pool) (ids : List Uint256) :
    Drops hash S pool (removeIds hash pool ids) :=
  removeIds_induction (R := fun q => Drops hash S pool q) .refl
    (fun hq hget => hq.tail ⟨_, (hs.drops hS hq).known hget, rfl⟩) ids

/-- No transaction of the second pool spends an output of one that only the first has. -/
def LeavesNone (pool pool' : CTxMemPool) : Prop :=
  ∀ {h k : Uint256} {parent tx : CTransaction} {o : COutPoint}, pool.mapTx[h]? = some parent →
    h ∉ pool'.mapTx → pool'.mapTx[k]? = some tx → o ∈ tx.prevouts → o.hash = h →
    parent.vout.length ≤ o.n.toNat

end Stealth.CTxMemPool

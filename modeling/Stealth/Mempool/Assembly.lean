import Stealth.Mempool.Contents

/-!
The blocks that are assembled from the memory pool: with the blocks of the chain they are one run of
connected transactions. The coinstake of a block is not in `mapTestPool`.
-/

namespace Stealth

open Selection OptionFold

variable {tx : CTransaction}

namespace CTransaction

theorem isCoinBase_eq (tx : CTransaction) : tx.isCoinBase = match tx.prevouts with
      | [o] => o.isNull && decide (1 ≤ tx.vout.length)
      | _ => false := by
  rw [isCoinBase, prevouts]
  rcases tx.vin with - | ⟨_, - | ⟨_, _⟩⟩ <;> rfl

theorem isCoinBase_of_isCoinStake (h : tx.isCoinStake = true) : tx.isCoinBase = false := by
  rw [isCoinStake] at h
  split at h
  · next txin vin o o' vout hvin hvout =>
    rw [Bool.and_eq_true, Bool.not_eq_true'] at h
    rw [isCoinBase, hvin]
    split
    · next heq =>
      cases heq
      rw [h.1, Bool.false_and]
    · rfl
  · cases h

theorem spends_of_isCoinBase (h : tx.isCoinBase = true) : tx.spends = [] := if_pos h

theorem spends_eq_prevouts (h : tx.isCoinBase = false) : tx.spends = tx.prevouts := by
  rw [spends, h]
  rfl

theorem spends_congr {a b : CTransaction} (hprevouts : a.prevouts = b.prevouts)
    (hvout : a.vout = b.vout) : a.spends = b.spends := by
  have hbase : a.isCoinBase = b.isCoinBase := by rw [isCoinBase_eq, isCoinBase_eq, hprevouts, hvout]
  rw [spends, spends, hbase]
  exact congrArg (ite _ []) hprevouts

end CTransaction

/-- What a block has before the transactions of the pool: nothing if it is of a qPoS staker, else a coinbase
and, if the wallet has found a kernel among its confirmed outputs, a coinstake. -/
inductive Lead (disk : Disk) where
  | qpos
  | mined (coinBase : CTransaction) (hbase : coinBase.isCoinBase = true)
  | staked (coinBase coinStake : CTransaction) (hbase : coinBase.isCoinBase = true)
      (hstake : coinStake.isCoinStake = true) (hdistinct : coinStake.prevouts.Nodup)
      (hconfirmed : ∀ o ∈ coinStake.prevouts, (Outputs.markOf disk.outputs o.output).isSome)
      (hsize : coinStake.serialize.length < MAX_BLOCK_SIZE_GEN / 5)

namespace Lead

variable {disk : Disk}

def txs : Lead disk → List CTransaction
  | qpos => []
  | mined coinBase _ => [coinBase]
  | staked coinBase coinStake .. => [coinBase, coinStake]

def spends (lead : Lead disk) : List COutPoint := lead.txs.flatMap CTransaction.spends

def coinStakeTime : Lead disk → Option UInt32
  | staked _ coinStake .. => if coinStake.hasTimestamp then some coinStake.nTime else none
  | _ => none

end Lead

/-- What `CreateNewBlock` reads: the node, its pool, the options for blocks, the priorities and fees per
kilobyte in floating point, and the order of the heap. -/
structure MinerEnv (hash : Bytes → Uint256) extends AcceptEnv hash, HeapOrder where
  pool : CTxMemPool
  keyed : pool.Keyed hash
  nTime : UInt32
  blockMaxSize : UInt32
  blockPrioritySize : UInt32
  nMinTxFee : Int
  priority : CTransaction → Rat × Rat

namespace MinerEnv

variable {hash : Bytes → Uint256}

section Assembly

variable (v : MinerEnv hash)

def blockCtx : BlockCtx where
  toCheckCtx := v.checkCtx v.pool
  hash := hash
  txdb h := (v.disk.txIndex h).bind fun txindex => v.E.readTx txindex.pos
  mempool := v.pool.mapTx

/-- The largest block that the node creates, between 1K and `MAX_BLOCK_SIZE` less 1K. -/
def nBlockMaxSize : Nat := max 1000 (min (MAX_BLOCK_SIZE - 1000) v.blockMaxSize.toNat)

/-- The feework of a transaction whose inputs are in the chain, if it is valid. -/
def minerFeework (tx : CTransaction) : Option Feework :=
  let feework := checkFeework v.E v.disk v.pool.mapTx v.feeworkCtx false 1 .block true true
    { bytes := tx.serialize.length } tx
  if feework.isValid then some feework else none

/-- `ConnectInputs` for the miner: the index entries with the spent outputs. Signatures are checked as above
the last checkpoint. -/
def connectInputs (mapTestPool : MapTxIndex) (nValuePurchases nClaim : Int) (tx : CTransaction) :
    Option MapTxIndex :=
  (fetchBlockInputs v.E v.disk v.pool.mapTx mapTestPool tx).bind fun inputs =>
    (tx.vin.foldlM (checkInput v.E v.nBestHeight v.pmemIndexBest inputs tx) 0).bind fun nValueIn =>
      (tx.vin.zipIdx.foldlM (spendInput v.E v.E.nBlocksEstimate true ⟨1, 1, 1⟩ tx)
        (inputs, mapTestPool)).bind fun st =>
          if (v.connectFees v.pool (nValueIn + nClaim - (tx.getValueOut + nValuePurchases))
              ((v.minerFeework tx).getD {}) tx).isSome then some st.2
          else none

/-- What `mapTestPool` becomes with a transaction that the block takes: its inputs are spent, and it has an
entry of its own. -/
def enterTx (mapTestPool : MapTxIndex) (tx : CTransaction) : Option MapTxIndex :=
  (fetchBlockInputs v.E v.disk v.pool.mapTx mapTestPool tx).bind fun inputs =>
    (tx.vin.zipIdx.foldlM (spendInput v.E v.E.nBlocksEstimate true ⟨1, 1, 1⟩ tx)
      (inputs, mapTestPool)).map fun st =>
        st.2.insert (tx.getHash hash) (CTxIndex.unspent ⟨1, 1, 1⟩ tx.vout.length)

def mapTestPool (vtx : List CTransaction) : Option MapTxIndex := vtx.foldlM v.enterTx ∅

def assembly (lead : Lead v.disk) : AssemblyEnv where
  nTime := v.nTime
  coinStakeTime := lead.coinStakeTime
  nBlockMaxSize := v.nBlockMaxSize
  nBlockPrioritySize := min v.nBlockMaxSize v.blockPrioritySize.toNat
  nMinTxFee := v.nMinTxFee
  priority := v.priority
  checkFeework tx := (v.minerFeework tx).map Feework.isOK
  legacySigOpCount := v.E.legacySigOpCount
  p2shSigOpCount := v.E.p2shSigOpCount
  minFee nBlockSize _ := getMinFee nBlockSize .block 0
  txFees mapInputs tx :=
    (tx.vin.map fun txin => ((getOutputFor mapInputs txin).map fun o => o.nValue.toInt).getD 0).sum -
      tx.getValueOut
  connectInputs vtx _ nValuePurchases nClaim c := (v.mapTestPool vtx).any fun mapTestPool =>
    (v.connectInputs mapTestPool nValuePurchases nClaim c.tx).isSome
  toHeapOrder := v.toHeapOrder

variable (lead : Lead v.disk)

def poolPart : List CTransaction :=
  takenTxs v.blockCtx v.registry v.pindexBest (v.assembly lead)

def newBlock : Option (List CTransaction) :=
  (createNewBlock v.blockCtx v.registry v.pindexBest (v.assembly lead)).map (lead.txs ++ ·)

def vtx : List CTransaction := lead.txs ++ v.poolPart lead

def counted : Progress :=
  ((policy v.blockCtx v.registry v.pindexBest (v.assembly lead)).run
    (initial v.blockCtx (v.assembly lead)).pending (initial v.blockCtx (v.assembly lead))).acc

/-- The same node with another order of the heap. -/
def reorder (order : HeapOrder) : MinerEnv hash := { v with toHeapOrder := order }

/-- Different transactions of the pool that pass the tests of the assembly one after the other. -/
structure Takes (l : List TxPriority) : Prop where
  nodup : l.Nodup
  pool : ∀ c ∈ l, c ∈ candidates v.blockCtx (v.assembly lead)
  passes : Policy.Passes (visitTx v.blockCtx v.registry v.pindexBest (v.assembly lead)) []
    (initial v.blockCtx (v.assembly lead)).acc l

end Assembly

variable {v : MinerEnv hash} {lead : Lead v.disk}

/-- The counters of the transactions that are taken. -/
structure Counts (v : MinerEnv hash) (taken : List TxPriority) (s : Progress) : Prop where
  size : s.nBlockSize = 1000 + totalSize (taken.map TxPriority.tx)
  sizeBelow : taken ≠ [] → s.nBlockSize < v.nBlockMaxSize
  ops : 100 + (taken.map fun c => v.E.legacySigOpCount c.tx).sum ≤ s.nBlockSigOps
  opsBelow : s.nBlockSigOps < MAX_BLOCK_SIGOPS

theorem Counts.sortByFee {taken : List TxPriority} {s : Progress} (h : Counts v taken s)
    (env : AssemblyEnv) (c : TxPriority) : Counts v taken (sortByFee env s c) := by
  obtain ⟨hsize, hops⟩ := @sameCounts_sortByFee env s c
  exact ⟨hsize.trans h.size, hsize ▸ h.sizeBelow, hops ▸ h.ops, hops ▸ h.opsBelow⟩

theorem keeps_counts :
    Policy.Keeps (policy v.blockCtx v.registry v.pindexBest (v.assembly lead)) (Counts v) := by
  intro taken s c ok s' hs h
  obtain ⟨rfl, rfl | rfl⟩ | ⟨rfl, hlimits, nSigOps, htest, rfl⟩ := visitTx_cases h
  · exact hs
  · exact hs.sortByFee _ c
  · obtain ⟨mapInputs, _, _, -, -, -, hops, heq⟩ := testTx_eq_some htest
    simp only [withinLimits, Bool.and_eq_true, decide_eq_true_eq] at hlimits
    refine ⟨?_, fun _ => hlimits.1.1.1.1, ?_, hops⟩
    · simp [totalSize, hs.size, Nat.add_assoc]
    · have hle := hs.ops
      have hlegacy : (v.assembly lead).legacySigOpCount c.tx = v.E.legacySigOpCount c.tx := rfl
      simp only [if_true, List.map_append, List.map_cons, List.map_nil, List.sum_append, List.sum_cons,
        List.sum_nil]
      omega

theorem counts_counted (v : MinerEnv hash) (lead : Lead v.disk) :
    Counts v (takenEntries v.blockCtx v.registry v.pindexBest (v.assembly lead)) (v.counted lead) := by
  refine Policy.run_induction (I := fun st => Counts v st.taken st.acc)
    (fun hI hstep => keeps_counts.step hI hstep) _ ⟨rfl, fun hne => absurd rfl hne, Nat.le_refl _, ?_⟩
  exact (by decide : 100 < MAX_BLOCK_SIGOPS)

theorem enterTx_of_connectInputs {mapTestPool mapTestPool' : MapTxIndex} {nValuePurchases nClaim : Int}
    (h : v.connectInputs mapTestPool nValuePurchases nClaim tx = some mapTestPool') :
    (v.enterTx mapTestPool tx).isSome := by
  obtain ⟨inputs, hfetch, h⟩ := Option.bind_eq_some_iff.1 h
  obtain ⟨nValueIn, -, h⟩ := Option.bind_eq_some_iff.1 h
  obtain ⟨st, hspend, -⟩ := Option.bind_eq_some_iff.1 h
  rw [enterTx, hfetch, Option.bind_some, hspend]
  rfl

/-- A transaction that the block takes is connected to the index through `mapTestPool`. -/
theorem enterTx_connects {mapTestPool mapTestPool' : MapTxIndex}
    (hbase : tx.isCoinBase = false) (h : v.enterTx mapTestPool tx = some mapTestPool') :
    ∃ t, Mirrors hash tx t ∧ t.mark.isNull = false ∧
      connectOutputs (indexOver v.disk mapTestPool) t = some (indexOver v.disk mapTestPool') := by
  obtain ⟨inputs, hfetch, h⟩ := Option.bind_eq_some_iff.1 h
  obtain ⟨st, hspend, rfl⟩ := Option.map_eq_some_iff.1 h
  refine ⟨⟨tx.getHash hash, ⟨1, 1, 1⟩, ⟨1, 1, 1⟩, tx.spends.map COutPoint.output, tx.vout.length⟩,
    ⟨rfl, rfl, rfl⟩, rfl, ?_⟩
  have hspent := spendInputs_spend (fetched_fetchBlockInputs hfetch) hspend
  rw [List.zipIdx_map_fst] at hspent
  have hinputs : tx.spends.map COutPoint.output = tx.vin.map fun txin => txin.prevout.output := by
    rw [CTransaction.spends_eq_prevouts hbase, CTransaction.prevouts, List.map_map]
    rfl
  rw [connectOutputs, Outputs.connect, hinputs, hspent, Option.map_some, Outputs.enter, indexOver_insert]
  rfl

theorem mapTestPool_connects : ∀ {vtx : List CTransaction} {mapTestPool mapTestPool' : MapTxIndex},
    (∀ tx ∈ vtx, tx.isCoinBase = false) → vtx.foldlM v.enterTx mapTestPool = some mapTestPool' →
    ∃ ts, List.Forall₂ (Mirrors hash) vtx ts ∧ (∀ t ∈ ts, t.mark.isNull = false) ∧
      ts.foldlM connectOutputs (indexOver v.disk mapTestPool) = some (indexOver v.disk mapTestPool')
  | [], _, _, _, h => by
    cases h
    exact ⟨[], .nil, fun _ ht => (nomatch ht), rfl⟩
  | tx :: vtx, _, _, hbase, h => by
    obtain ⟨htx, hvtx⟩ := List.forall_mem_cons.1 hbase
    obtain ⟨_, hstep, hrest⟩ := foldlM_cons_eq_some.1 h
    obtain ⟨t, ht, hmark, hconnect⟩ := enterTx_connects htx hstep
    obtain ⟨ts, hts, hmarks, hconnects⟩ := mapTestPool_connects hvtx hrest
    exact ⟨t :: ts, .cons ht hts, List.forall_mem_cons.2 ⟨hmark, hmarks⟩,
      foldlM_cons_eq_some.2 ⟨_, hconnect, hconnects⟩⟩

theorem exists_mapTestPool (v : MinerEnv hash) (lead : Lead v.disk) :
    ∃ mapTestPool, v.mapTestPool (v.poolPart lead) = some mapTestPool := by
  have htracks : Policy.Tracks (policy v.blockCtx v.registry v.pindexBest (v.assembly lead))
      (fun c => dependsOn v.blockCtx c.tx) (initial v.blockCtx (v.assembly lead)) := tracks_initial _ _
  have hsplit := Policy.taken_run
    (P := fun pre c => ∃ m m', v.mapTestPool (pre.map TxPriority.tx) = some m ∧ v.enterTx m c.tx = some m')
    htracks rfl
    (fun _ hvisit => by
      obtain ⟨hno, -⟩ | ⟨-, -, nSigOps, htest, -⟩ := visitTx_cases hvisit
      · cases hno
      · obtain ⟨mapInputs, _, _, -, -, hconnect, -⟩ := testTx_eq_some htest
        obtain ⟨m, hm, hconnect⟩ := (Option.any_eq_true ..).1 hconnect
        obtain ⟨_, hconnect⟩ := Option.isSome_iff_exists.1 hconnect
        obtain ⟨m', hm'⟩ := Option.isSome_iff_exists.1 (enterTx_of_connectInputs hconnect)
        exact ⟨m, m', hm, hm'⟩) (initial v.blockCtx (v.assembly lead)).pending
  rw [poolPart, takenTxs]
  rcases List.eq_nil_or_concat (takenEntries v.blockCtx v.registry v.pindexBest (v.assembly lead)) with
    hnil | ⟨pre, c, hlast⟩
  · rw [hnil]
    exact ⟨∅, rfl⟩
  · rw [List.concat_eq_append] at hlast
    obtain ⟨m, m', hm, hm'⟩ := hsplit pre c [] hlast
    refine ⟨m', ?_⟩
    rw [hlast, List.map_append, mapTestPool, List.foldlM_append]
    exact Option.bind_eq_some_iff.2 ⟨m, hm, foldlM_cons_eq_some.2 ⟨m', hm', rfl⟩⟩

theorem nodup_ids_poolPart (v : MinerEnv hash) (lead : Lead v.disk) :
    ((v.poolPart lead).map (CTransaction.getHash hash)).Nodup := by
  have hkeyed : ∀ {h : Uint256} {tx : CTransaction}, v.blockCtx.mempool[h]? = some tx →
      tx.getHash v.blockCtx.hash = h := v.keyed _ _
  exact nodup_ids_takenTxs hkeyed

/-- A transaction of the block is one of the pool, no coinbase or coinstake, and fits into a block. -/
theorem mem_poolPart (h : tx ∈ v.poolPart lead) :
    tx ∈ poolTxs v.blockCtx ∧ tx.isCoinBase = false ∧ tx.isCoinStake = false ∧ tx.Sized := by
  obtain ⟨c, hc, rfl⟩ := List.mem_map.1 h
  obtain ⟨hpool, hprio⟩ := mem_candidates ((takenEntries_subperm v.registry v.pindexBest).subset hc)
  obtain ⟨-, hbase, hstake, -, -⟩ := priorityOf_eq_some hprio
  refine ⟨hpool, hbase, hstake, CTransaction.sized_of_length ?_⟩
  have hcounts := counts_counted v lead
  have hsize : c.tx.serialize.length ≤ totalSize
      ((takenEntries v.blockCtx v.registry v.pindexBest (v.assembly lead)).map TxPriority.tx) :=
    List.le_sum_of_mem (List.mem_map.2 ⟨c.tx, List.mem_map_of_mem hc, rfl⟩)
  have hbelow := hcounts.sizeBelow (List.ne_nil_of_mem hc)
  rw [hcounts.size] at hbelow
  have hmax : v.nBlockMaxSize ≤ max 1000 (MAX_BLOCK_SIZE - 1000) :=
    max_le_max_left _ (min_le_left _ _)
  exact Nat.lt_of_le_of_lt (by omega : _ ≤ max 1000 (MAX_BLOCK_SIZE - 1000)) (by decide)

section Ledger

variable {n : Node} {bs : List CBlock}

/-- A transaction with the inputs and the outputs of a confirmed one spends an outpoint that is spent. -/
theorem exists_shared_spend (hrun : Connected hash n bs) {tx' : CTransaction}
    (htx : tx ∈ bs.flatMap CBlock.vtx) (hbase : tx'.isCoinBase = false) (hprevouts : tx.prevouts = tx'.prevouts)
    (hvout : tx.vout = tx'.vout) : ∃ o ∈ tx.spends, o ∈ tx'.spends := by
  have hne : tx'.prevouts ≠ [] := by
    rw [← hprevouts, CTransaction.prevouts]
    simpa using (hrun.checked tx htx).2
  obtain ⟨o, ho⟩ := List.exists_mem_of_ne_nil _ hne
  rw [CTransaction.spends_congr hprevouts hvout, CTransaction.spends_eq_prevouts hbase]
  exact ⟨o, ho, ho⟩

/-- The blocks of the chain and the transactions that the block takes are one run of connected
transactions: no id and no input repeats, and every input is an output of an earlier transaction. -/
theorem ledger_poolPart (lead : Lead v.disk) (hrun : Connected hash n bs)
    (hids : (bs.flatMap (CBlock.ids hash)).Nodup) (hdisk : v.disk = n.db.txdb.view) {S : Set CTransaction}
    (hfix : CTxMemPool.IdsFix hash S) (hchain : ∀ tx ∈ bs.flatMap CBlock.vtx, tx ∈ S)
    (hpool : ∀ tx ∈ v.poolPart lead, tx ∈ S) :
    ((bs.flatMap CBlock.vtx ++ v.poolPart lead).map (CTransaction.getHash hash)).Nodup ∧
    ((bs.flatMap CBlock.vtx ++ v.poolPart lead).flatMap CTransaction.spends).Nodup ∧
    ∀ before tx after, bs.flatMap CBlock.vtx ++ v.poolPart lead = before ++ tx :: after →
      ∀ o ∈ tx.spends, ∃ prev ∈ before, prev.getHash hash = o.hash ∧ o.n.toNat < prev.vout.length := by
  obtain ⟨us, hus, hfollows, hearlier⟩ := hrun.follows hids
  obtain ⟨m, hm⟩ := exists_mapTestPool v lead
  obtain ⟨ts, hts, hmarks, hconnects⟩ := mapTestPool_connects (fun tx htx => (mem_poolPart htx).2.1) hm
  rw [indexOver_empty, hdisk] at hconnects
  -- a transaction of the pool with the id of a confirmed one cannot be connected again
  have hrepeat : ∀ u ∈ us, ∀ t ∈ ts, u.id = t.id → ∃ o ∈ u.inputs, o ∈ t.inputs := by
    intro u hu t ht heq
    obtain ⟨tx, htx, hmirrors⟩ := exists_of_mirrors hus hu
    obtain ⟨tx', htx', hmirrors'⟩ := exists_of_mirrors hts ht
    rw [hmirrors.id, hmirrors'.id] at heq
    obtain ⟨hprevouts, hvout⟩ := hfix (hchain tx htx) (hpool tx' htx') heq
    obtain ⟨o, ho, ho'⟩ := exists_shared_spend hrun htx (mem_poolPart htx').2.1 hprevouts hvout
    refine ⟨o.output, ?_, ?_⟩
    · rw [hmirrors.inputs]
      exact List.mem_map_of_mem ho
    · rw [hmirrors'.inputs]
      exact List.mem_map_of_mem ho'
  have hnodup : ((us ++ ts).map Outputs.Tx.id).Nodup := by
    refine hfollows.nodup_ids hmarks ?_ ?_ hrepeat hconnects
    · rw [ids_of_mirrors hus, List.map_flatMap]
      exact hids
    · rw [ids_of_mirrors hts]
      exact nodup_ids_poolPart v lead
  have hall : List.Forall₂ (Mirrors hash) (bs.flatMap CBlock.vtx ++ v.poolPart lead) (us ++ ts) :=
    List.rel_append hus hts
  obtain ⟨hfollows', hearlier'⟩ := hfollows.connectAll hearlier hmarks hnodup hconnects
  refine ⟨?_, ?_, fun before tx after heq o ho => earlier_of_mirrors hall hearlier' heq ho⟩
  · rwa [ids_of_mirrors hall] at hnodup
  · have hdistinct := hfollows'.distinct
    rw [spends_of_mirrors hall] at hdistinct
    exact hdistinct.of_map _

end Ledger

end MinerEnv

def IsParent (hash : Bytes → Uint256) (parent tx : CTransaction) : Prop :=
  ∃ o ∈ tx.spends, parent.getHash hash = o.hash

/-- In a run of connected transactions no transaction is a parent of itself or of an earlier one. -/
theorem not_isParent_of_earlier {hash : Bytes → Uint256} {l : List CTransaction}
    (hnodup : (l.map (CTransaction.getHash hash)).Nodup)
    (hearlier : ∀ before tx after, l = before ++ tx :: after →
      ∀ o ∈ tx.spends, ∃ prev ∈ before, prev.getHash hash = o.hash ∧ o.n.toNat < prev.vout.length) :
    l.Pairwise (fun tx later => ¬ IsParent hash later tx) ∧ ∀ tx ∈ l, ¬ IsParent hash tx tx := by
  have hsplit : ∀ before tx after, l = before ++ tx :: after → ∀ later ∈ tx :: after,
      ¬ IsParent hash later tx := by
    rintro before tx after rfl later hlater ⟨o, ho, heq⟩
    obtain ⟨prev, hprev, hid, -⟩ := hearlier before tx after rfl o ho
    rw [List.map_append] at hnodup
    refine (List.nodup_append'.1 hnodup).2.2 (List.mem_map_of_mem hprev) ?_
    rw [hid, ← heq]
    exact List.mem_map_of_mem hlater
  constructor
  · refine List.pairwise_iff_getElem.2 fun i j hi hj hij => ?_
    refine hsplit (l.take i) l[i] (l.drop (i + 1)) (by simp) l[j] (List.mem_cons_of_mem _ ?_)
    exact List.mem_drop_iff_getElem.2 ⟨j - (i + 1), by omega, by congr 1; omega⟩
  · intro tx htx
    obtain ⟨before, after, heq⟩ := List.append_of_mem htx
    exact hsplit before tx after heq tx List.mem_cons_self

theorem parent_mem_of_pairwise {hash : Bytes → Uint256} {vtx : List CTransaction}
    (hpair : vtx.Pairwise fun tx later => ¬ IsParent hash later tx)
    (hself : ∀ tx ∈ vtx, ¬ IsParent hash tx tx) {pre post : List CTransaction} {parent : CTransaction}
    (heq : vtx = pre ++ tx :: post) (hmem : parent ∈ vtx) (hparent : IsParent hash parent tx) :
    parent ∈ pre := by
  subst heq
  rcases List.mem_append.1 hmem with hpre | hrest
  · exact hpre
  · rcases List.mem_cons.1 hrest with rfl | hpost
    · exact absurd hparent (hself parent hmem)
    · have hlater := (List.pairwise_cons.1 (List.pairwise_append.1 hpair).2.1).1
      exact absurd hparent (hlater parent hpost)

namespace Lead

variable {hash : Bytes → Uint256} {disk : Disk} {tx : CTransaction}

theorem isCoinBase_or_isCoinStake {lead : Lead disk} (h : tx ∈ lead.txs) :
    tx.isCoinBase = true ∨ tx.isCoinStake = true := by
  cases lead with
  | qpos => cases h
  | mined coinBase hbase =>
    rw [List.mem_singleton.1 h]
    exact .inl hbase
  | staked coinBase coinStake hbase hstake =>
    rcases List.mem_cons.1 h with rfl | h
    · exact .inl hbase
    · rw [List.mem_singleton.1 h]
      exact .inr hstake

theorem nodup_txs (lead : Lead disk) : lead.txs.Nodup := by
  cases lead with
  | qpos => exact List.nodup_nil
  | mined coinBase => exact List.nodup_singleton coinBase
  | staked coinBase coinStake hbase hstake =>
    refine List.nodup_cons.2 ⟨fun h => ?_, List.nodup_singleton coinStake⟩
    rw [List.mem_singleton.1 h] at hbase
    rw [CTransaction.isCoinBase_of_isCoinStake hstake] at hbase
    cases hbase

theorem nodup_spends (lead : Lead disk) : lead.spends.Nodup := by
  cases lead with
  | qpos => exact List.nodup_nil
  | mined coinBase hbase => simp [spends, txs, CTransaction.spends_of_isCoinBase hbase]
  | staked coinBase coinStake hbase hstake hdistinct =>
    have hother := CTransaction.isCoinBase_of_isCoinStake hstake
    simpa [spends, txs, CTransaction.spends_of_isCoinBase hbase,
      CTransaction.spends_eq_prevouts hother] using hdistinct

theorem pairwise_txs (hash : Bytes → Uint256) (lead : Lead disk) :
    lead.txs.Pairwise fun tx later => ¬ IsParent hash later tx := by
  cases lead with
  | qpos => exact .nil
  | mined coinBase => exact List.pairwise_singleton _ coinBase
  | staked coinBase coinStake hbase =>
    refine List.pairwise_cons.2 ⟨fun later _ => ?_, List.pairwise_singleton _ coinStake⟩
    rintro ⟨o, ho, -⟩
    rw [CTransaction.spends_of_isCoinBase hbase] at ho
    cases ho

theorem of_mem_spends {lead : Lead disk} (h : tx ∈ lead.txs) {o : COutPoint} (ho : o ∈ tx.spends) :
    tx.Sized ∧ tx.isCoinBase = false ∧ (Outputs.markOf disk.outputs o.output).isSome := by
  have hnone : ∀ {coinBase : CTransaction}, coinBase.isCoinBase = true → tx ≠ coinBase := by
    rintro _ hbase rfl
    rw [CTransaction.spends_of_isCoinBase hbase] at ho
    cases ho
  cases lead with
  | qpos => cases h
  | mined coinBase hbase => exact absurd (List.mem_singleton.1 h) (hnone hbase)
  | staked coinBase coinStake hbase hstake hdistinct hconfirmed hsize =>
    have hother := CTransaction.isCoinBase_of_isCoinStake hstake
    rcases List.mem_cons.1 h with rfl | h
    · exact absurd rfl (hnone hbase)
    · rw [List.mem_singleton.1 h] at ho ⊢
      rw [CTransaction.spends_eq_prevouts hother] at ho
      exact ⟨CTransaction.sized_of_length (hsize.trans (by decide)), hother, hconfirmed o ho⟩

end Lead

namespace MinerEnv

variable {hash : Bytes → Uint256} {v : MinerEnv hash} {lead : Lead v.disk}

/-- What a block should be: no transaction is in it twice, parents come first, no outpoint is spent twice,
and the counters are below the limits. -/
structure Assembled (v : MinerEnv hash) (lead : Lead v.disk) (vtx : List CTransaction) : Prop where
  once : vtx.Nodup
  parents : ∀ pre tx post, vtx = pre ++ tx :: post → ∀ parent ∈ vtx, IsParent hash parent tx → parent ∈ pre
  spends : (vtx.flatMap CTransaction.spends).Nodup
  size : (v.counted lead).nBlockSize < v.nBlockMaxSize
  ops : (v.counted lead).nBlockSigOps < MAX_BLOCK_SIGOPS

theorem nodup_vtx (v : MinerEnv hash) (lead : Lead v.disk) : (v.vtx lead).Nodup := by
  refine List.nodup_append'.2 ⟨lead.nodup_txs, (nodup_ids_poolPart v lead).of_map _, fun tx hlead htx => ?_⟩
  obtain ⟨-, hbase, hstake, -⟩ := mem_poolPart htx
  rcases Lead.isCoinBase_or_isCoinStake hlead with h | h
  · rw [hbase] at h
    cases h
  · rw [hstake] at h
    cases h

/-- The counted size is below the limit as soon as the limit leaves room for a transaction. -/
theorem size_counted_lt_iff : (v.counted lead).nBlockSize < v.nBlockMaxSize ↔ 1000 < v.blockMaxSize.toNat := by
  have hcounts := counts_counted v lead
  have hroom : 1000 < v.nBlockMaxSize ↔ 1000 < v.blockMaxSize.toNat := by
    have hlarge : 1000 < MAX_BLOCK_SIZE - 1000 := by decide
    rw [nBlockMaxSize, lt_max_iff, lt_min_iff]
    exact ⟨fun h => (h.resolve_left (lt_irrefl _)).2, fun h => .inr ⟨hlarge, h⟩⟩
  rw [← hroom]
  have hsize := hcounts.size
  constructor
  · intro h
    omega
  · intro h
    by_cases hnil : takenEntries v.blockCtx v.registry v.pindexBest (v.assembly lead) = []
    · rw [hnil] at hsize
      rw [hsize]
      exact h
    · exact hcounts.sizeBelow hnil

theorem nodup_spends_vtx_iff (hpool : ((v.poolPart lead).flatMap CTransaction.spends).Nodup) :
    ((v.vtx lead).flatMap CTransaction.spends).Nodup ↔
      ∀ tx ∈ v.poolPart lead, lead.spends.Disjoint tx.spends := by
  rw [vtx, List.flatMap_append, ← Lead.spends, List.nodup_append', and_iff_right lead.nodup_spends,
    and_iff_right hpool]
  constructor
  · exact fun h tx htx o ho hspent => h ho (List.mem_flatMap.2 ⟨tx, htx, hspent⟩)
  · intro h o ho hspent
    obtain ⟨tx, htx, hspent⟩ := List.mem_flatMap.1 hspent
    exact h tx htx ho hspent

section Chain

variable {n : Node} {bs : List CBlock}

def knownTxs (v : MinerEnv hash) (lead : Lead v.disk) (bs : List CBlock) : Set CTransaction :=
  { tx | tx ∈ bs.flatMap CBlock.vtx ∨ tx ∈ poolTxs v.blockCtx ∨ tx ∈ lead.txs }

def spendingTxs (v : MinerEnv hash) (lead : Lead v.disk) (bs : List CBlock) : Set CTransaction :=
  { tx | tx ∈ bs.flatMap CBlock.vtx ∨ tx ∈ v.poolPart lead ∨ tx ∈ lead.txs ∧ tx.spends ≠ [] }

theorem idsFix_spendingTxs (hrun : Connected hash n bs)
    (hinj : Set.InjOn hash ((fun tx : CTransaction => tx.idForm.serialize) '' v.knownTxs lead bs)) :
    CTxMemPool.IdsFix hash (v.spendingTxs lead bs) := by
  refine CTxMemPool.idsFix_of_injOn (hinj.mono (Set.image_mono ?_)) ?_
  · rintro tx (hchain | hpool | ⟨hlead, -⟩)
    · exact .inl hchain
    · exact .inr (.inl (mem_poolPart hpool).1)
    · exact .inr (.inr hlead)
  · rintro tx (hchain | hpool | ⟨hlead, hne⟩)
    · exact (hrun.checked tx hchain).1
    · exact (mem_poolPart hpool).2.2.2
    · obtain ⟨o, ho⟩ := List.exists_mem_of_ne_nil _ hne
      exact (Lead.of_mem_spends hlead ho).1

theorem exists_confirmed (hrun : Connected hash n bs) (hids : (bs.flatMap (CBlock.ids hash)).Nodup)
    {o : COutPoint} (ho : (Outputs.markOf n.outputs o.output).isSome) :
    ∃ tx ∈ bs.flatMap CBlock.vtx, tx.getHash hash = o.hash := by
  obtain ⟨us, hus, hfollows, -⟩ := hrun.follows hids
  obtain ⟨u, hu, hid, -⟩ := hfollows.entered o.output ho
  obtain ⟨tx, htx, hmirrors⟩ := exists_of_mirrors hus hu
  exact ⟨tx, htx, hmirrors.id.symm.trans hid⟩

theorem newBlock_eq_some {vtx : List CTransaction} : v.newBlock lead = some vtx ↔
    vtx = v.vtx lead ∧ ∀ tx ∈ v.poolPart lead, tx.getHash hash ∉ dangling v.blockCtx := by
  rw [newBlock, Option.map_eq_some_iff]
  constructor
  · rintro ⟨txs, htxs, rfl⟩
    obtain ⟨rfl, hdangling⟩ := createNewBlock_eq_some.1 htxs
    exact ⟨rfl, hdangling⟩
  · rintro ⟨rfl, hdangling⟩
    exact ⟨_, createNewBlock_eq_some.2 ⟨rfl, hdangling⟩, rfl⟩

section

variable (hrun : Connected hash n bs) (hids : (bs.flatMap (CBlock.ids hash)).Nodup)
  (hdisk : v.disk = n.db.txdb.view)
  (hinj : Set.InjOn hash ((fun tx : CTransaction => tx.idForm.serialize) '' v.knownTxs lead bs))

include hrun hids hdisk hinj

theorem parents_vtx : (v.vtx lead).Pairwise (fun tx later => ¬ IsParent hash later tx) ∧
      ∀ tx ∈ v.vtx lead, ¬ IsParent hash tx tx := by
  have hfix := idsFix_spendingTxs hrun hinj
  obtain ⟨hnodup, -, hearlier⟩ := ledger_poolPart lead hrun hids hdisk hfix
    (fun tx htx => .inl htx) (fun tx htx => .inr (.inl htx))
  obtain ⟨hpair, hself⟩ := not_isParent_of_earlier hnodup hearlier
  -- what the coinstake spends is confirmed
  have hconfirmed : ∀ tx ∈ lead.txs, ∀ o ∈ tx.spends,
      ∃ prev ∈ bs.flatMap CBlock.vtx, prev.getHash hash = o.hash := by
    intro tx htx o ho
    have hmark := (Lead.of_mem_spends htx ho).2.2
    rw [hdisk] at hmark
    exact exists_confirmed hrun hids hmark
  constructor
  · refine List.pairwise_append.2 ⟨lead.pairwise_txs hash, (List.pairwise_append.1 hpair).2.1, ?_⟩
    rintro tx htx later hlater ⟨o, ho, heq⟩
    obtain ⟨prev, hprev, hid⟩ := hconfirmed tx htx o ho
    rw [List.map_append] at hnodup
    refine (List.nodup_append'.1 hnodup).2.2 (List.mem_map_of_mem hprev) ?_
    rw [hid, ← heq]
    exact List.mem_map_of_mem hlater
  · intro tx htx
    rcases List.mem_append.1 htx with hlead | hpool
    · rintro ⟨o, ho, heq⟩
      obtain ⟨prev, hprev, hid⟩ := hconfirmed tx hlead o ho
      obtain ⟨hprevouts, hvout⟩ := hfix (.inl hprev)
        (.inr (.inr ⟨hlead, List.ne_nil_of_mem ho⟩)) (hid.trans heq.symm)
      refine hself prev (List.mem_append_left _ hprev) ⟨o, ?_, hid⟩
      rwa [CTransaction.spends_congr hprevouts hvout]
    · exact hself tx (List.mem_append_right _ hpool)

theorem exists_assembled_iff :
    (∃ vtx ∈ v.newBlock lead, v.Assembled lead vtx) ↔ 1000 < v.blockMaxSize.toNat ∧
      ∀ tx ∈ v.poolPart lead, tx.getHash hash ∉ dangling v.blockCtx ∧ lead.spends.Disjoint tx.spends := by
  have hfix := idsFix_spendingTxs hrun hinj
  obtain ⟨-, hspends, -⟩ := ledger_poolPart lead hrun hids hdisk hfix
    (fun tx htx => .inl htx) (fun tx htx => .inr (.inl htx))
  rw [List.flatMap_append] at hspends
  have hspends_iff := nodup_spends_vtx_iff (List.nodup_append'.1 hspends).2.1
  obtain ⟨hpair, hself⟩ := parents_vtx hrun hids hdisk hinj
  constructor
  · rintro ⟨vtx, hvtx, h⟩
    obtain ⟨rfl, hdangling⟩ := newBlock_eq_some.1 hvtx
    exact ⟨size_counted_lt_iff.1 h.size, fun tx htx => ⟨hdangling tx htx, hspends_iff.1 h.spends tx htx⟩⟩
  · rintro ⟨hsize, hall⟩
    exact ⟨_, newBlock_eq_some.2 ⟨rfl, fun tx htx => (hall tx htx).1⟩, nodup_vtx v lead,
      fun pre tx post heq parent hmem hparent => parent_mem_of_pairwise hpair hself heq hmem hparent,
      hspends_iff.2 fun tx htx => (hall tx htx).2, size_counted_lt_iff.2 hsize, (counts_counted v lead).opsBelow⟩

end

theorem nodup_candidates (v : MinerEnv hash) (env : AssemblyEnv) : (candidates v.blockCtx env).Nodup := by
  have hkeyed : ∀ {h : Uint256} {tx : CTransaction}, v.blockCtx.mempool[h]? = some tx →
      tx.getHash v.blockCtx.hash = h := v.keyed _ _
  exact (map_candidates_sublist.nodup ((nodup_poolIds hkeyed).of_map _)).of_map _

theorem takes_takenEntries (v : MinerEnv hash) (lead : Lead v.disk) :
    v.Takes lead (takenEntries v.blockCtx v.registry v.pindexBest (v.assembly lead)) := by
  obtain ⟨sub, hperm, hsub⟩ := @takenEntries_subperm v.blockCtx (v.assembly lead) v.registry v.pindexBest
  have hstart : SameCounts (initial v.blockCtx (v.assembly lead)).acc (initial v.blockCtx (v.assembly lead)).acc :=
    ⟨rfl, rfl⟩
  obtain ⟨l, htaken, hpasses⟩ := Policy.passes_run
    (p := policy v.blockCtx v.registry v.pindexBest (v.assembly lead)) visitTx_same
    (initial v.blockCtx (v.assembly lead)).pending hstart
  refine ⟨hperm.nodup_iff.1 (hsub.nodup (nodup_candidates v _)),
    fun c hc => hsub.subset (hperm.mem_iff.2 hc), ?_⟩
  rw [takenEntries, htaken]
  exact hpasses

/-- In the order that brings them first, transactions that pass one after the other are taken. -/
theorem Takes.exists_order {l : List TxPriority} (h : v.Takes lead l) :
    ∃ order, ∀ c ∈ l, c.tx ∈ (v.reorder order).poolPart lead := by
  let order : HeapOrder := ⟨fun _ => Policy.follow l, Policy.follow_perm, fun _ => Policy.follow_isSome l⟩
  refine ⟨order, fun c hc => List.mem_map_of_mem (List.IsPrefix.subset ?_ hc)⟩
  have hpasses : Policy.Passes
      (policy v.blockCtx v.registry v.pindexBest ((v.reorder order).assembly lead)).visit
      (initial v.blockCtx ((v.reorder order).assembly lead)).taken
      (initial v.blockCtx ((v.reorder order).assembly lead)).acc l := h.passes
  refine Policy.Passes.prefix_run h.nodup ?_ (fun _ _ => rfl) l (List.nil_append l) hpasses (tracks_initial _ _)
    (items_initial.nodup_iff.2 (nodup_candidates v _)) (fun c hc => items_initial.mem_iff.2 (h.pool c hc))
    (Nat.le_refl _)
  intro taken s c acc hc hvisit
  obtain ⟨hno, -⟩ | ⟨-, -, nSigOps, htest, -⟩ := visitTx_cases hvisit
  · cases hno
  · obtain ⟨mapInputs, _, _, hfetch, -⟩ := testTx_eq_some htest
    obtain ⟨-, hbase, -⟩ := priorityOf_eq_some (mem_candidates (h.pool c hc)).2
    have hdeps := dependsOn_of_fetchInputs hbase hfetch
    rw [List.map_map] at hdeps
    exact hdeps

end Chain

theorem injOn_of_nodup {L : List CTransaction} (hnodup : (L.map (CTransaction.getHash hash)).Nodup)
    {S : Set CTransaction} (hS : ∀ tx ∈ S, tx ∈ L) :
    Set.InjOn hash ((fun tx : CTransaction => tx.idForm.serialize) '' S) := by
  rintro _ ⟨a, ha, rfl⟩ _ ⟨b, hb, rfl⟩ heq
  rw [List.inj_on_of_nodup_map hnodup (hS a ha) (hS b hb) heq]

end MinerEnv

def minedTip : Node :=
  ((connectMined 1 firstMined (minedNode, .empty QPRegistry.mainEnv)).toOption.bind fun st =>
    (connectMined 2 secondMined st).toOption).elim minedNode Prod.fst

theorem connected_minedTip : Connected rollingHash minedTip [firstMined, secondMined] := by
  obtain ⟨st, st', hfirst, hsecond, -⟩ := connectMined_ok
  have htip : minedTip = st'.1 := by
    rw [minedTip, hfirst]
    exact congrArg (fun run : Run (Node × QPRegistry) => run.toOption.elim minedNode Prod.fst) hsecond
  rw [htip]
  exact .connect (.connect (.start fun _ => rfl) rfl (by decide) hfirst) rfl (by decide) hsecond

def minedPay : CTransaction := payTx ((payTx ((mineTx 1).getHash rollingHash)).getHash rollingHash)

def minedPayId : Uint256 := minedPay.getHash rollingHash

def rivalTx : CTransaction := looseTx ⟨minedPayId, 0⟩ [⟨4000000, payScript⟩]

def rivalPool : CTxMemPool := ({} : CTxMemPool).addUnchecked (rivalTx.getHash rollingHash) rivalTx

def rivalEnv : MinerEnv rollingHash where
  toAcceptEnv :=
    { poolEnv with
      E := { minedEnv with readTx := fun _ => some minedPay }
      disk := minedTip.db.txdb.view
      registry := .empty QPRegistry.mainEnv
      nBestHeight := 2
      pindexBest := (minedRecord 2).toCBlockIndex
      pmemIndexBest := [minedIndex 2, minedIndex 1, minedIndex 0] }
  pool := rivalPool
  keyed := CTxMemPool.keyed_empty.insert rfl
  nTime := 30
  blockMaxSize := 250000
  blockPrioritySize := 27000
  nMinTxFee := 10000
  priority _ := (0, 1000000)
  toHeapOrder := headOrder

theorem disk_rivalEnv : rivalEnv.disk = minedTip.db.txdb.view := by rw [rivalEnv]

def rivalStake : CTransaction := looseTx ⟨minedPayId, 0⟩ [⟨0, []⟩, ⟨5000000, payScript⟩]

def rivalLead : Lead rivalEnv.disk :=
  .staked { mineTx 3 with vout := [⟨0, []⟩] } rivalStake (by decide) (by decide +kernel) (by decide +kernel)
    (by decide +kernel) (by decide +kernel)

namespace MinerEnv

end MinerEnv

end Stealth

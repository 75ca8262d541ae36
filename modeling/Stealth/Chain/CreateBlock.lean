import Stealth.Chain.BlockChecks
import Stealth.Lib.Selection

/-!
Assembling a block from the memory pool: `CreateNewBlock` checks each transaction for itself, a block is
checked as a whole.
-/

namespace Stealth

open Selection

variable {tx : CTransaction} {c : TxPriority}

def CTransaction.isFinal (nBestHeight now : Int) (tx : CTransaction) : Bool :=
  tx.nLockTime == 0 ||
    decide ((tx.nLockTime.toNat : Int) <
      if tx.nLockTime.toNat < 500000000 then nBestHeight else now) ||
    tx.vin.all fun txin => txin.nSequence == 0xffffffff

/-- A node whose memory pool has unconfirmed transactions by id. `GetTransaction` finds the pool
first and does not know a block for it. -/
structure PoolCtx extends BlockCtx where
  hash_eq : ∀ {h : Uint256} {tx : CTransaction}, mempool[h]? = some tx → tx.getHash hash = h
  unconfirmed : ∀ {h : Uint256}, h ∈ mempool → txdb h = none
  blockOf_pool : ∀ {h : Uint256}, h ∈ mempool → blockOf h = some 0

/-- An entry of the priority queue; `feework` is whether the feework of the transaction is good. -/
structure TxPriority where
  dPriority : Rat
  dFeePerKb : Rat
  feework : Bool
  tx : CTransaction

/-- The order that the heap of the standard library brings the entries in, by priority or by fee. -/
structure HeapOrder where
  popHeap : Bool → List TxPriority → Option (TxPriority × List TxPriority)
  popHeap_perm : ∀ {f l a rest}, popHeap f l = some (a, rest) → (a :: rest).Perm l
  popHeap_isSome : ∀ f {l}, l ≠ [] → (popHeap f l).isSome

/-- What the assembly reads besides the chain, the registry and the pool: the time of the coinstake of the
block, if it has one with a timestamp, the limits, the fees, the counts of signature operations and the results
of `CheckFeework` and `ConnectInputs`. -/
structure AssemblyEnv extends HeapOrder where
  nTime : UInt32
  coinStakeTime : Option UInt32
  nBlockMaxSize : Nat
  nBlockPrioritySize : Nat
  nMinTxFee : Rat
  priority : CTransaction → Rat × Rat
  checkFeework : CTransaction → Option Bool
  legacySigOpCount : CTransaction → Nat
  p2shSigOpCount : MapPrevTx → CTransaction → Nat
  minFee : Nat → CTransaction → Int
  txFees : MapPrevTx → CTransaction → Int
  connectInputs : List CTransaction → MapPrevTx → Int → Int → TxPriority → Bool

def headOrder : HeapOrder where
  popHeap _ l := l.head?.map fun c => (c, l.tail)
  popHeap_perm {_ l _ _} h := by
    cases l with
    | nil => cases h
    | cons c l =>
      cases h
      exact List.Perm.refl _
  popHeap_isSome _ {l} h := by
    cases l with
    | nil => exact absurd rfl h
    | cons c l => rfl

/-- The counters of the assembly. -/
structure Progress where
  nBlockSize : Nat := 1000
  nBlockSigOps : Nat := 100
  fSortedByFee : Bool

section Assembly

variable (ctx : BlockCtx) (r : QPRegistry) (pindexBest : CBlockIndex) (env : AssemblyEnv)

def readsFromDisk (txin : CTxIn) : Bool := (getOutputFor ctx.txdb txin).isSome

def dependsOn (tx : CTransaction) : List Uint256 :=
  (tx.vin.filter fun txin => !readsFromDisk ctx txin).map fun txin => txin.prevout.hash

def hasInputs (tx : CTransaction) : Bool := (dependsOn ctx tx).all ctx.mempool.contains

def isSkipped (tx : CTransaction) : Bool := tx.isCoinBase || tx.isCoinStake || !tx.isFinal ctx.nBestHeight ctx.now

def poolTxs : List CTransaction := ctx.mempool.toList.map Prod.snd

/-- The keys under which `mapDependers` has a pointer to an orphan that is freed: at a missing input
`vOrphan.pop_back` leaves the pointers for the inputs before it. -/
def dangling : List Uint256 :=
  (poolTxs ctx).flatMap fun tx =>
    if isSkipped ctx tx || hasInputs ctx tx then [] else (dependsOn ctx tx).takeWhile ctx.mempool.contains

/-- The queue entry of a transaction of the pool that can go into a block. With bad feework a transaction
is left out, but one that waits for others is waiting already and stays there without priority. -/
def priorityOf (tx : CTransaction) : Option TxPriority :=
  if isSkipped ctx tx then none
  else if !hasInputs ctx tx then none
  else
    match env.checkFeework tx with
    | some feework => some ⟨(env.priority tx).1, (env.priority tx).2, feework, tx⟩
    | none => if (dependsOn ctx tx).isEmpty then none else some ⟨0, 0, false, tx⟩

def candidates : List TxPriority := (poolTxs ctx).filterMap (priorityOf ctx env)

/-- The qPoS checks of `CreateNewBlock` on one transaction, with containers of its own: the value of
its purchases and of its claim. -/
def checkAlone (nTime : UInt32) (mapInputs : MapPrevTx) (tx : CTransaction) : Option (Int × Int) :=
  let vDeets := blockDeets ctx pindexBest.hashBlock tx
  if vDeets ≠ [] ∧
      (checkQPoS ctx.toCheckCtx r mapInputs nTime pindexBest tx vDeets QposContainers.empty).isNone then none
  else
    match checkPurchases ctx.toCheckCtx r (nextStakerPrice ctx.toCheckCtx r pindexBest) tx with
    | none => none
    | some mapPurchases =>
      if mapPurchases.toList.all fun e => (r.aliasIsAvailableInternal e.1).isSome then
        (checkClaim ctx.toCheckCtx r mapInputs tx).map fun claim =>
          ((mapPurchases.toList.map fun e => e.2.value).sum, claim.value)
      else none

def timestampPasses (tx : CTransaction) : Bool :=
  !(tx.hasTimestamp && decide (ctx.now < tx.nTime.toNat))

/-- In a block with a coinstake a timestamp is not after the one of the coinstake. -/
def stakeTimePasses (tx : CTransaction) : Bool :=
  !(tx.hasTimestamp && env.coinStakeTime.any fun nTime => decide (nTime < tx.nTime))

/-- The limits that are checked before the inputs of a transaction are fetched. -/
def withinLimits (s : Progress) (c : TxPriority) : Bool :=
  decide (s.nBlockSize + c.tx.serialize.length < env.nBlockMaxSize) &&
    decide (s.nBlockSigOps + env.legacySigOpCount c.tx < MAX_BLOCK_SIGOPS) &&
    timestampPasses ctx c.tx && stakeTimePasses env c.tx && decide (env.nMinTxFee ≤ c.dFeePerKb)

def sortByFee (s : Progress) (c : TxPriority) : Progress :=
  if !s.fSortedByFee && (decide (env.nBlockPrioritySize ≤ s.nBlockSize + c.tx.serialize.length) ||
      decide (c.dPriority < 576000)) then { s with fSortedByFee := true }
  else s

/-- The checks after the limits: the count of signature operations of the block with the transaction. -/
def testTx (taken : List TxPriority) (s : Progress) (c : TxPriority) : Option Nat := do
  let vtx := taken.map TxPriority.tx
  let mapInputs ← fetchInputs ctx.txdb ctx.mempool (vtx.map (·.getHash ctx.hash)) true (fun _ => none) c.tx
  let (nValuePurchases, nClaim) ← checkAlone ctx r pindexBest env.nTime mapInputs c.tx
  let nSigOps := s.nBlockSigOps + env.legacySigOpCount c.tx + env.p2shSigOpCount mapInputs c.tx
  if env.txFees mapInputs c.tx < env.minFee s.nBlockSize c.tx && !c.feework then none
  else if MAX_BLOCK_SIGOPS ≤ nSigOps then none
  else if env.connectInputs vtx mapInputs nValuePurchases nClaim c then some nSigOps
  else none

def visitTx (taken : List TxPriority) (s : Progress) (c : TxPriority) : Bool × Progress :=
  if !withinLimits ctx env s c then (false, s)
  else
    match testTx ctx r pindexBest env taken s c with
    | none => (false, sortByFee env s c)
    | some nSigOps =>
      (true, { sortByFee env s c with
        nBlockSize := s.nBlockSize + c.tx.serialize.length
        nBlockSigOps := nSigOps })

def policy : Policy TxPriority Uint256 Progress where
  key c := c.tx.getHash ctx.hash
  pick s l := env.popHeap s.fSortedByFee l
  visit := visitTx ctx r pindexBest env
  pick_perm := env.popHeap_perm
  pick_isSome s := env.popHeap_isSome s.fSortedByFee

/-- The queue at the start: what depends on nothing in the pool is ready. -/
def initial : State TxPriority Uint256 Progress :=
  let all := candidates ctx env
  { ready := all.filter fun c => (dependsOn ctx c.tx).isEmpty
    waiting := (all.filter fun c => !(dependsOn ctx c.tx).isEmpty).map fun c =>
      (c, dependsOn ctx c.tx)
    taken := []
    acc := { fSortedByFee := env.nBlockPrioritySize == 0 } }

def totalSize (txs : List CTransaction) : Nat := (txs.map fun tx => tx.serialize.length).sum

def takenEntries : List TxPriority :=
  ((policy ctx r pindexBest env).run (initial ctx env).pending (initial ctx env)).taken

def takenTxs : List CTransaction := (takenEntries ctx r pindexBest env).map TxPriority.tx

/-- To take a transaction is to go through its orphans. A freed one makes the call undefined. -/
def createNewBlock : Option (List CTransaction) :=
  if (takenTxs ctx r pindexBest env).any fun tx => (dangling ctx).contains (tx.getHash ctx.hash) then none
  else some (takenTxs ctx r pindexBest env)

end Assembly

def chainInputs (ctx : BlockCtx) : MapPrevTx := fun h => (ctx.txdb h).or ctx.mempool[h]?

section Checks

variable {ctx : BlockCtx} {r : QPRegistry} {pindexBest : CBlockIndex} {env : AssemblyEnv}

/-- With containers of its own a transaction is checked without regard to the time. -/
theorem checkAlone_nTime (nTime nTime' : UInt32) (mapInputs : MapPrevTx) (tx : CTransaction) :
    checkAlone ctx r pindexBest nTime mapInputs tx = checkAlone ctx r pindexBest nTime' mapInputs tx := by
  have hmerge : mergeEffects ctx.toCheckCtx r nTime QposContainers.empty =
      mergeEffects ctx.toCheckCtx r nTime' QposContainers.empty := by
    funext e
    cases h : e.claim <;> simp [mergeEffects, h, OptionFold.mergeWith, mergeClaim, QposContainers.empty]
  simp only [checkAlone, checkQPoS_eq, hmerge]

theorem checkAlone_congr {nTime : UInt32} {mapInputs mapInputs' : MapPrevTx}
    (h : ∀ txin ∈ tx.vin, mapInputs txin.prevout.hash = mapInputs' txin.prevout.hash) :
    checkAlone ctx r pindexBest nTime mapInputs tx = checkAlone ctx r pindexBest nTime mapInputs' tx := by
  have hsig : getSignatory ctx.view mapInputs tx 0 = getSignatory ctx.view mapInputs' tx 0 :=
    getSignatory_congr h
  have hclaim : checkClaim ctx.toCheckCtx r mapInputs tx = checkClaim ctx.toCheckCtx r mapInputs' tx := by
    simp only [checkClaim, validateSignatory_congr hsig]
  simp only [checkAlone, checkQPoS_eq, txEffects_congr hsig, hclaim]

variable {taken : List TxPriority} {s s' : Progress} {ok : Bool}

theorem testTx_eq_some {nSigOps : Nat} (h : testTx ctx r pindexBest env taken s c = some nSigOps) :
    ∃ mapInputs nValuePurchases nClaim,
      fetchInputs ctx.txdb ctx.mempool ((taken.map TxPriority.tx).map (·.getHash ctx.hash)) true
        (fun _ => none) c.tx = some mapInputs ∧
      checkAlone ctx r pindexBest env.nTime mapInputs c.tx = some (nValuePurchases, nClaim) ∧
      env.connectInputs (taken.map TxPriority.tx) mapInputs nValuePurchases nClaim c = true ∧
      nSigOps < MAX_BLOCK_SIGOPS ∧
      nSigOps = s.nBlockSigOps + env.legacySigOpCount c.tx + env.p2shSigOpCount mapInputs c.tx := by
  obtain ⟨mapInputs, hfetch, h⟩ := Option.bind_eq_some_iff.1 h
  obtain ⟨⟨nValuePurchases, nClaim⟩, hcheck, h⟩ := Option.bind_eq_some_iff.1 h
  dsimp only at h
  rw [Option.ite_none_left_eq_some, Option.ite_none_left_eq_some, Option.ite_none_right_eq_some] at h
  obtain ⟨-, hops, hconnect, heq⟩ := h
  cases heq
  exact ⟨mapInputs, nValuePurchases, nClaim, hfetch, hcheck, hconnect, Nat.lt_of_not_le hops, rfl⟩

theorem visitTx_cases (h : visitTx ctx r pindexBest env taken s c = (ok, s')) :
    ok = false ∧ (s' = s ∨ s' = sortByFee env s c) ∨
    ok = true ∧ withinLimits ctx env s c = true ∧ ∃ nSigOps,
      testTx ctx r pindexBest env taken s c = some nSigOps ∧
      s' = { sortByFee env s c with
        nBlockSize := s.nBlockSize + c.tx.serialize.length
        nBlockSigOps := nSigOps } := by
  rw [visitTx] at h
  split at h
  · cases h
    exact .inl ⟨rfl, .inl rfl⟩
  · next hlimits =>
    split at h
    · cases h
      exact .inl ⟨rfl, .inr rfl⟩
    · next nSigOps htest =>
      cases h
      exact .inr ⟨rfl, by simpa using hlimits, nSigOps, htest, rfl⟩

/-- The counters are equal; only what comes first may differ. -/
def SameCounts (s t : Progress) : Prop := s.nBlockSize = t.nBlockSize ∧ s.nBlockSigOps = t.nBlockSigOps

theorem sameCounts_sortByFee (s : Progress) (c : TxPriority) : SameCounts (sortByFee env s c) s := by
  rw [sortByFee]
  split <;> exact ⟨rfl, rfl⟩

theorem visitTx_same {s t s' : Progress} (hst : SameCounts s t)
    (h : visitTx ctx r pindexBest env taken s c = (ok, s')) :
    ∃ t', visitTx ctx r pindexBest env taken t c = (ok, t') ∧ SameCounts s' t' ∧ (ok = false → SameCounts s' t) := by
  have hlimits : withinLimits ctx env s c = withinLimits ctx env t c := by
    rw [withinLimits, withinLimits, hst.1, hst.2]
  have htest : testTx ctx r pindexBest env taken s c = testTx ctx r pindexBest env taken t c := by
    rw [testTx, testTx, hst.1, hst.2]
  have hsort := @sameCounts_sortByFee env s c
  have hsort' := @sameCounts_sortByFee env t c
  rw [visitTx, hlimits, htest] at h
  rw [visitTx]
  split at h
  · next hno =>
    cases h
    exact ⟨t, if_pos hno, hst, fun _ => hst⟩
  · next hyes =>
    rw [if_neg hyes]
    cases hops : testTx ctx r pindexBest env taken t c with
    | none =>
      rw [hops] at h
      cases h
      have hsame : SameCounts (sortByFee env s c) t := ⟨hsort.1.trans hst.1, hsort.2.trans hst.2⟩
      exact ⟨_, rfl, ⟨hsame.1.trans hsort'.1.symm, hsame.2.trans hsort'.2.symm⟩, fun _ => hsame⟩
    | some nSigOps =>
      rw [hops] at h
      cases h
      exact ⟨_, rfl, ⟨congrArg (· + c.tx.serialize.length) hst.1, rfl⟩, nofun⟩

/-- A transaction whose inputs are fetched comes after what it depends on. -/
theorem dependsOn_of_fetchInputs {ids : List Uint256} {mapInputs : MapPrevTx} (hbase : tx.isCoinBase = false)
    (hfetch : fetchInputs ctx.txdb ctx.mempool ids true (fun _ => none) tx = some mapInputs) :
    ∀ d ∈ dependsOn ctx tx, d ∈ ids := by
  intro d hd
  obtain ⟨txin, hmem, rfl⟩ := List.mem_map.1 hd
  obtain ⟨hvin, hdisk⟩ := List.mem_filter.1 hmem
  by_contra hnot
  rw [fetchInputs_eq hbase, Option.ite_none_right_eq_some] at hfetch
  have hsome := List.all_eq_true.1 hfetch.1 txin hvin
  have hfind : (none : Option CTransaction).or (findPrev ctx.txdb ctx.mempool ids true txin.prevout.hash) =
      ctx.txdb txin.prevout.hash := by
    rw [Option.none_or, findPrev, if_neg (by simpa using hnot)]
    cases ctx.txdb txin.prevout.hash <;> rfl
  rw [getOutputFor, hfind] at hsome
  rw [readsFromDisk, getOutputFor, hsome] at hdisk
  cases hdisk

end Checks

/-- A transaction of the pool that passes on its own once its inputs are there. -/
structure Eligible (ctx : BlockCtx) (r : QPRegistry) (pindexBest : CBlockIndex) (tx : CTransaction) :
    Prop where
  noBase : tx.isCoinBase = false
  noStake : tx.isCoinStake = false
  final : tx.isFinal ctx.nBestHeight ctx.now = true
  inPool : hasInputs ctx tx = true
  timestamp : timestampPasses ctx tx = true
  outputs : ∀ txin ∈ tx.vin, (getOutputFor (chainInputs ctx) txin).isSome
  alone : (checkAlone ctx r pindexBest 0 (chainInputs ctx) tx).isSome

/-- An eligible transaction whose dependencies in the pool can be selected as well. -/
def CanSelect (ctx : BlockCtx) (r : QPRegistry) (pindexBest : CBlockIndex) : CTransaction → Prop :=
  Selectable (·.getHash ctx.hash) (dependsOn ctx) (Eligible ctx r pindexBest) (poolTxs ctx)

section Entries

variable {ctx : BlockCtx} {r : QPRegistry} {pindexBest : CBlockIndex} {env : AssemblyEnv}

theorem priorityOf_eq_some (h : priorityOf ctx env tx = some c) :
    c.tx = tx ∧ tx.isCoinBase = false ∧ tx.isCoinStake = false ∧
      tx.isFinal ctx.nBestHeight ctx.now = true ∧ hasInputs ctx tx = true := by
  rw [priorityOf] at h
  split at h
  · cases h
  · next hskip =>
    split at h
    · cases h
    · next hinputs =>
      have htx : c.tx = tx := by
        split at h
        · cases h
          rfl
        · split at h
          · cases h
          · cases h
            rfl
      simp only [isSkipped, Bool.not_eq_true, Bool.or_eq_false_iff, Bool.not_eq_eq_eq_not, Bool.not_false] at hskip
      exact ⟨htx, hskip.1.1, hskip.1.2, hskip.2, by simpa using hinputs⟩

theorem mem_candidates (h : c ∈ candidates ctx env) :
    c.tx ∈ poolTxs ctx ∧ priorityOf ctx env c.tx = some c := by
  obtain ⟨tx, hmem, hc⟩ := List.mem_filterMap.1 h
  obtain ⟨rfl, -⟩ := priorityOf_eq_some hc
  exact ⟨hmem, hc⟩

theorem items_initial : (initial ctx env).items.Perm (candidates ctx env) := by
  simp only [State.items, initial, List.nil_append, List.map_map, Function.comp_def, List.map_id']
  exact List.filter_append_perm _ _

theorem tracks_initial (r : QPRegistry) (pindexBest : CBlockIndex) :
    Policy.Tracks (policy ctx r pindexBest env) (fun c => dependsOn ctx c.tx) (initial ctx env) := by
  constructor
  · intro c hc d hd
    have hnil := (List.mem_filter.1 hc).2
    rw [List.isEmpty_iff.1 hnil] at hd
    cases hd
  · intro w hw
    obtain ⟨c, hc, rfl⟩ := List.mem_map.1 hw
    exact ⟨by simpa using (List.mem_filter.1 hc).2, fun d hd => .inr hd⟩
  · intro w hw d hd
    obtain ⟨c, hc, rfl⟩ := List.mem_map.1 hw
    exact ⟨hd, by simp [initial]⟩

theorem createNewBlock_eq_some {vtx : List CTransaction} : createNewBlock ctx r pindexBest env = some vtx ↔
    vtx = takenTxs ctx r pindexBest env ∧ ∀ tx ∈ vtx, tx.getHash ctx.hash ∉ dangling ctx := by
  rw [createNewBlock, Option.ite_none_left_eq_some, Option.some_inj]
  constructor
  · rintro ⟨hnone, rfl⟩
    exact ⟨rfl, by simpa using hnone⟩
  · rintro ⟨rfl, hnone⟩
    exact ⟨by simpa using hnone, rfl⟩

theorem takenEntries_subperm (r : QPRegistry) (pindexBest : CBlockIndex) :
    (takenEntries ctx r pindexBest env).Subperm (candidates ctx env) :=
  (Policy.taken_run_subperm _ _ _).trans items_initial.subperm

theorem map_candidates_sublist : ((candidates ctx env).map TxPriority.tx).Sublist (poolTxs ctx) := by
  have hsub : ∀ l : List CTransaction,
      ((l.filterMap (priorityOf ctx env)).map TxPriority.tx).Sublist l := by
    intro l
    induction l with
    | nil => exact List.Sublist.slnil
    | cons tx l ih =>
      cases hc : priorityOf ctx env tx with
      | none =>
        rw [List.filterMap_cons_none hc]
        exact ih.cons tx
      | some c =>
        rw [List.filterMap_cons_some hc, List.map_cons, (priorityOf_eq_some hc).1]
        exact ih.cons_cons tx
  exact hsub _

theorem map_tx_subperm {taken : List TxPriority} (h : taken.Subperm (candidates ctx env)) :
    (taken.map TxPriority.tx).Subperm (poolTxs ctx) := by
  obtain ⟨l, hperm, hsub⟩ := h
  exact ⟨l.map TxPriority.tx, hperm.map _, (hsub.map _).trans map_candidates_sublist⟩

theorem takenTxs_subperm (ctx : BlockCtx) (r : QPRegistry) (pindexBest : CBlockIndex)
    (env : AssemblyEnv) : (takenTxs ctx r pindexBest env).Subperm (poolTxs ctx) :=
  map_tx_subperm (takenEntries_subperm r pindexBest)

theorem nodup_poolIds
    (hkeyed : ∀ {h : Uint256} {tx : CTransaction}, ctx.mempool[h]? = some tx → tx.getHash ctx.hash = h) :
    ((poolTxs ctx).map (CTransaction.getHash ctx.hash)).Nodup := by
  rw [poolTxs, List.map_map, List.Nodup, List.pairwise_map]
  refine Std.ExtTreeMap.distinct_keys_toList.imp_of_mem ?_
  rintro ⟨h, tx⟩ ⟨h', tx'⟩ hmem hmem' hne heq
  have hget := hkeyed (mem_toList_iff_getElem?_eq_some.1 hmem)
  have hget' := hkeyed (mem_toList_iff_getElem?_eq_some.1 hmem')
  exact hne (Std.LawfulEqOrd.compare_eq_iff_eq.2 ((hget.symm.trans heq).trans hget'))

theorem nodup_ids_takenTxs
    (hkeyed : ∀ {h : Uint256} {tx : CTransaction}, ctx.mempool[h]? = some tx → tx.getHash ctx.hash = h) :
    ((takenTxs ctx r pindexBest env).map (CTransaction.getHash ctx.hash)).Nodup := by
  obtain ⟨l, hperm, hsub⟩ := takenTxs_subperm ctx r pindexBest env
  exact (hperm.map _).nodup_iff.1 ((hsub.map _).nodup (nodup_poolIds hkeyed))

end Entries

section Sound

variable {ctx : PoolCtx} {r : QPRegistry} {pindexBest : CBlockIndex} {env : AssemblyEnv}

theorem mem_poolTxs : tx ∈ poolTxs ctx.toBlockCtx ↔ ctx.mempool[tx.getHash ctx.hash]? = some tx := by
  constructor
  · intro h
    obtain ⟨⟨h, tx⟩, hmem, rfl⟩ := List.mem_map.1 h
    have hget := mem_toList_iff_getElem?_eq_some.1 hmem
    rwa [ctx.hash_eq hget]
  · intro h
    exact List.mem_map.2 ⟨(_, tx), mem_toList_iff_getElem?_eq_some.2 h, rfl⟩

theorem mem_mempool (h : tx ∈ poolTxs ctx.toBlockCtx) : tx.getHash ctx.hash ∈ ctx.mempool :=
  Tally.mem_of_getElem? (mem_poolTxs.1 h)

theorem chainInputs_of_mem {h : Uint256} (hmem : h ∈ ctx.mempool) :
    chainInputs ctx.toBlockCtx h = ctx.mempool[h]? := by
  rw [chainInputs, ctx.unconfirmed hmem, Option.none_or]

theorem chainInputs_of_findPrev {ids : List Uint256} {h : Uint256} {txPrev : CTransaction}
    (hfind : findPrev ctx.txdb ctx.mempool ids true h = some txPrev) :
    chainInputs ctx.toBlockCtx h = some txPrev := by
  rw [findPrev] at hfind
  split at hfind
  · rw [chainInputs_of_mem (Tally.mem_of_getElem? hfind), hfind]
  · cases hdb : ctx.txdb h with
    | none => simp [hdb] at hfind
    | some tx =>
      rw [hdb] at hfind
      rw [chainInputs, hdb]
      exact hfind

theorem fetch_chainInputs {ids : List Uint256} {mapInputs : MapPrevTx} (hbase : tx.isCoinBase = false)
    (hfetch : fetchInputs ctx.txdb ctx.mempool ids true (fun _ => none) tx = some mapInputs) :
    ∀ txin ∈ tx.vin, mapInputs txin.prevout.hash = chainInputs ctx.toBlockCtx txin.prevout.hash ∧
      (getOutputFor (chainInputs ctx.toBlockCtx) txin).isSome := by
  rw [fetchInputs_eq hbase] at hfetch
  split at hfetch
  · next hall =>
    cases hfetch
    intro txin hmem
    have hsome := List.all_eq_true.1 hall txin hmem
    simp only [getOutputFor, Option.none_or] at hsome
    obtain ⟨txPrev, hprev⟩ := Option.isSome_iff_exists.1 (Option.isSome_of_isSome_bind hsome)
    have hchain := chainInputs_of_findPrev hprev
    constructor
    · rw [fetched_of_mem hmem, Option.none_or, hprev, hchain]
    · rw [hprev] at hsome
      rwa [getOutputFor, hchain]
  · cases hfetch

theorem nodup_takenTxs : (takenTxs ctx.toBlockCtx r pindexBest env).Nodup :=
  (nodup_ids_takenTxs ctx.hash_eq).of_map _

theorem canSelect_of_mem (h : tx ∈ takenTxs ctx.toBlockCtx r pindexBest env) :
    CanSelect ctx.toBlockCtx r pindexBest tx := by
  obtain ⟨c, hc, rfl⟩ := List.mem_map.1 h
  -- what a visit has checked, after the entries before
  let Good : TxPriority → Prop := fun c => timestampPasses ctx.toBlockCtx c.tx = true ∧
    ∃ ids mapInputs, fetchInputs ctx.txdb ctx.mempool ids true (fun _ => none) c.tx = some mapInputs ∧
      (checkAlone ctx.toBlockCtx r pindexBest env.nTime mapInputs c.tx).isSome
  have hsplit := Policy.taken_run
    (P := fun pre c => (∀ d ∈ dependsOn ctx.toBlockCtx c.tx, d ∈ pre.map (·.tx.getHash ctx.hash)) ∧ Good c)
    (tracks_initial r pindexBest) rfl
    (fun hdeps hvisit => by
      obtain ⟨hno, -⟩ | ⟨-, hlimits, nSigOps, htest, -⟩ := visitTx_cases hvisit
      · cases hno
      · obtain ⟨mapInputs, _, _, hfetch, hcheck, -⟩ := testTx_eq_some htest
        simp only [withinLimits, Bool.and_eq_true] at hlimits
        exact ⟨hdeps, hlimits.1.1.2, _, mapInputs, hfetch, by rw [hcheck]; rfl⟩) (initial ctx.toBlockCtx env).pending
  have hsel := selectable_of_split (fun c hc => (takenEntries_subperm r pindexBest).subset hc) hsplit c hc
  refine hsel.map TxPriority.tx ?_ (fun _ => rfl) (fun _ => rfl)
  rintro c hc ⟨hstamp, ids, mapInputs, hfetch, hcheck⟩
  obtain ⟨hpool, hprio⟩ := mem_candidates hc
  obtain ⟨-, hbase, hstake, hfinal, hinputs⟩ := priorityOf_eq_some hprio
  have hchain := fetch_chainInputs hbase hfetch
  refine ⟨hpool, hbase, hstake, hfinal, hinputs, hstamp, fun txin hmem => (hchain txin hmem).2, ?_⟩
  rwa [checkAlone_nTime 0 env.nTime, ← checkAlone_congr fun txin hmem => (hchain txin hmem).1]

end Sound

end Stealth

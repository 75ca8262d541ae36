import Mathlib.Algebra.Order.Group.Nat
import Stealth.Chain.CreateBlock
import Stealth.Qpos.Solo

/-! Which pools give blocks that pass: those without conflicts among the transactions that can be selected. -/

namespace Stealth

open OptionFold Selection QPRegistry

/-- What a transaction adds to the containers when it is checked alone. -/
def effectsOf (ctx : BlockCtx) (r : QPRegistry) (pindexBest : CBlockIndex) (tx : CTransaction) :
    TxEffects :=
  (txEffects ctx.toCheckCtx r (chainInputs ctx) pindexBest tx
    (blockDeets ctx pindexBest.hashBlock tx)).getD ⟨none, none, none⟩

section Block

variable {ctx : PoolCtx} {r : QPRegistry} {pindexBest : CBlockIndex} {tx : CTransaction}

theorem Eligible.txEffects_eq (h : Eligible ctx.toBlockCtx r pindexBest tx) :
    txEffects ctx.toCheckCtx r (chainInputs ctx.toBlockCtx) pindexBest tx
        (blockDeets ctx.toBlockCtx pindexBest.hashBlock tx) =
      some (effectsOf ctx.toBlockCtx r pindexBest tx) ∧
    (effectsOf ctx.toBlockCtx r pindexBest tx).setKeys ≠ some [] := by
  have halone := h.alone
  rw [checkAlone] at halone
  split at halone
  · cases halone
  · next hpass =>
    by_cases hnil : blockDeets ctx.toBlockCtx pindexBest.hashBlock tx = []
    · rw [effectsOf, hnil]
      exact ⟨rfl, by simp [txEffects, plainChecksPass, whenNeeded]⟩
    · have hsome : (checkQPoS ctx.toCheckCtx r (chainInputs ctx.toBlockCtx) 0 pindexBest tx
          (blockDeets ctx.toBlockCtx pindexBest.hashBlock tx) QposContainers.empty).isSome := by
        by_contra hnone
        exact hpass ⟨hnil, by simpa using hnone⟩
      rw [checkQPoS_eq] at hsome
      cases he : txEffects ctx.toCheckCtx r (chainInputs ctx.toBlockCtx) pindexBest tx
          (blockDeets ctx.toBlockCtx pindexBest.hashBlock tx) with
      | none => simp [he] at hsome
      | some e =>
        rw [effectsOf, he]
        refine ⟨rfl, fun hkeys => ?_⟩
        rw [Option.getD_some] at hkeys
        simp [he, mergeEffects, hkeys, mergeWith, mergeSetKeys] at hsome

theorem txEffects_of_not_needsInputs {ctx : CheckCtx} {deets : List QPTxDetails}
    (h : needsInputs deets = false) (mapInputs mapInputs' : MapPrevTx) :
    txEffects ctx r mapInputs pindexBest tx deets = txEffects ctx r mapInputs' pindexBest tx deets := by
  have hnone : ∀ κ, κ ≠ .purchase → deets.any (hasKind κ) = false := by
    intro κ hκ
    rw [List.any_eq_false]
    intro d hd hkind
    have hpurchase := (List.any_eq_false.1 h) d hd
    simp only [hasKind, beq_iff_eq] at hkind
    simp [hasKind, hkind, hκ] at hpurchase
  have hplain : plainChecksPass ctx r mapInputs tx deets = plainChecksPass ctx r mapInputs' tx deets := by
    simp only [plainChecksPass, hnone .setState (by decide), hnone .setMeta (by decide)]
    rfl
  rw [txEffects, txEffects, hplain, hnone .setKey (by decide), hnone .claim (by decide)]
  rfl

theorem not_mem_mempool_of_signed (hfork : .qposB ≤ ctx.fork ctx.nBestHeight) {mapInputs : MapPrevTx}
    {txin : CTxIn} (hvin : tx.vin = [txin])
    (h : (getSignatory ctx.view mapInputs tx 0).isSome) : txin.prevout.hash ∉ ctx.mempool := by
  intro hmem
  have hzero := ctx.blockOf_pool hmem
  have hsettled : inputIsSettled ctx.view txin = false := by
    simp only [inputIsSettled, CheckCtx.view, if_pos hfork, hzero]
    rfl
  simp [getSignatory, hvin, hsettled] at h

theorem blockEffects_eq (hfork : .qposB ≤ ctx.fork ctx.nBestHeight) {hashBlock : Uint256}
    {vtx : List CTransaction} (hvtx : ∀ t ∈ vtx, t ∈ poolTxs ctx.toBlockCtx)
    (h : Eligible ctx.toBlockCtx r pindexBest tx) :
    blockEffects ctx.toBlockCtx r hashBlock pindexBest vtx tx =
      some (effectsOf ctx.toBlockCtx r pindexBest tx) := by
  have heff := h.txEffects_eq.1
  have htypes := map_t_getQPTxDetails ctx.env.nfts ctx.hash pindexBest.hashBlock hashBlock tx
  rw [blockDeets, txEffects_types htypes] at heff
  rw [blockEffects, blockInputs]
  cases hneeds : needsInputs (blockDeets ctx.toBlockCtx hashBlock tx) with
  | false =>
    rw [if_neg Bool.false_ne_true, Option.bind_some,
      txEffects_of_not_needsInputs hneeds _ (chainInputs ctx.toBlockCtx)]
    exact heff
  | true =>
    obtain ⟨hlen, hsig⟩ := singleSigned_of_txEffects heff hneeds
    obtain ⟨txin, hvin⟩ := List.length_eq_one_iff.1 hlen
    have hconfirmed := not_mem_mempool_of_signed hfork hvin hsig
    -- nothing is filled in from the block, since what it has is not confirmed
    have hprefill : prefillInputs ctx.hash vtx tx txin.prevout.hash = none := by
      rw [prefillInputs, if_neg]
      intro hfill
      obtain ⟨tx2, hmem, hhash⟩ := List.any_eq_true.1 (Bool.and_eq_true_iff.1 hfill).2
      rw [← beq_iff_eq.1 hhash] at hconfirmed
      exact hconfirmed (mem_mempool (hvtx tx2 (List.takeWhile_subset _ hmem)))
    have hfind : (prefillInputs ctx.hash vtx tx txin.prevout.hash).or
        (findPrev ctx.txdb ctx.mempool [] false txin.prevout.hash) =
          chainInputs ctx.toBlockCtx txin.prevout.hash := by
      rw [hprefill, Option.none_or, chainInputs, findPrev]
      cases ctx.txdb txin.prevout.hash <;> rfl
    have hfetch : fetchInputs ctx.txdb ctx.mempool [] false (prefillInputs ctx.hash vtx tx) tx =
        some (fetched (findPrev ctx.txdb ctx.mempool [] false) (prefillInputs ctx.hash vtx tx)
          tx.vin) := by
      rw [fetchInputs_eq h.noBase, if_pos]
      refine List.all_eq_true.2 fun txin' hmem => ?_
      have hout := h.outputs txin' hmem
      obtain rfl : txin' = txin := by simpa [hvin] using hmem
      rwa [getOutputFor, hfind]
    rw [if_pos rfl, hfetch, Option.bind_some, ← heff]
    refine txEffects_congr (getSignatory_congr fun txin' hmem => ?_)
    rw [fetched_of_mem hmem]
    obtain rfl : txin' = txin := by simpa [hvin] using hmem
    exact hfind

theorem mapM_eq_some_map {α β : Type} {f : α → Option β} {g : α → β} {l : List α}
    (h : ∀ a ∈ l, f a = some (g a)) : l.mapM f = some (l.map g) := by
  induction l with
  | nil => rfl
  | cons a l ih =>
    obtain ⟨ha, hl⟩ := List.forall_mem_cons.1 h
    rw [List.mapM_cons, ha, ih hl]
    rfl

/-- A block of transactions that can be selected passes exactly when their effects go together. -/
theorem isSome_checkBlockQPoS (hfork : .qposB ≤ ctx.fork ctx.nBestHeight) {hashBlock : Uint256}
    {nTime : UInt32} {vtx : List CTransaction} (hvtx : ∀ t ∈ vtx, CanSelect ctx.toBlockCtx r pindexBest t) :
    (checkBlockQPoS ctx.toBlockCtx r hashBlock nTime pindexBest vtx).isSome ↔
      Compatible ctx.toCheckCtx r nTime (vtx.map (effectsOf ctx.toBlockCtx r pindexBest)) := by
  have hpool : ∀ t ∈ vtx, t ∈ poolTxs ctx.toBlockCtx := fun t ht => (hvtx t ht).mem.1
  have hel : ∀ t ∈ vtx, Eligible ctx.toBlockCtx r pindexBest t := fun t ht => (hvtx t ht).mem.2
  rw [checkBlockQPoS_eq, mapM_eq_some_map fun t ht => blockEffects_eq hfork hpool (hel t ht),
    Option.bind_some, isSome_foldlM_empty]
  · intro e he
    obtain ⟨t, ht, rfl⟩ := List.mem_map.1 he
    exact (hel t ht).txEffects_eq.2
  · intro e he claim hclaim
    obtain ⟨t, ht, rfl⟩ := List.mem_map.1 he
    exact claim_value_nonneg (hel t ht).txEffects_eq.1 hclaim

end Block

def takeAll (ctx : BlockCtx) : AssemblyEnv where
  nTime := 0
  coinStakeTime := none
  nBlockMaxSize := 1001 + totalSize (poolTxs ctx)
  nBlockPrioritySize := 0
  nMinTxFee := 0
  priority _ := (0, 0)
  checkFeework _ := some true
  legacySigOpCount _ := 0
  p2shSigOpCount _ _ := 0
  minFee _ _ := 0
  txFees _ _ := 0
  connectInputs _ _ _ _ _ := true
  toHeapOrder := headOrder

section TakeAll

variable {ctx : PoolCtx} {r : QPRegistry} {pindexBest : CBlockIndex} {tx : CTransaction}

def Counted (taken : List TxPriority) (s : Progress) : Prop :=
  s.nBlockSize = 1000 + totalSize (taken.map TxPriority.tx) ∧ s.nBlockSigOps = 100

theorem sortByFee_counted (env : AssemblyEnv) {taken : List TxPriority} {s : Progress}
    (c : TxPriority) (h : Counted taken s) : Counted taken (sortByFee env s c) := by
  obtain ⟨hsize, hops⟩ := @sameCounts_sortByFee env s c
  exact ⟨hsize.trans h.1, hops.trans h.2⟩

theorem keeps_counted :
    Policy.Keeps (policy ctx.toBlockCtx r pindexBest (takeAll ctx.toBlockCtx)) Counted := by
  intro taken s c ok s' hs h
  obtain ⟨rfl, rfl | rfl⟩ | ⟨rfl, -, nSigOps, htest, rfl⟩ := visitTx_cases h
  · exact hs
  · exact sortByFee_counted _ c hs
  · obtain ⟨mapInputs, _, _, -, -, -, -, rfl⟩ := testTx_eq_some htest
    exact ⟨by simp [totalSize, hs.1, Nat.add_assoc], hs.2⟩

theorem findPrev_of_dependsOn {ids : List Uint256} (hids : ∀ h ∈ ids, h ∈ ctx.mempool)
    (hdeps : ∀ d ∈ dependsOn ctx.toBlockCtx tx, d ∈ ids) :
    ∀ txin ∈ tx.vin, findPrev ctx.txdb ctx.mempool ids true txin.prevout.hash =
      chainInputs ctx.toBlockCtx txin.prevout.hash := by
  intro txin hmem
  by_cases hin : txin.prevout.hash ∈ ids
  · rw [findPrev, if_pos (by simpa using hin), chainInputs_of_mem (hids _ hin)]
  · have hdisk : readsFromDisk ctx.toBlockCtx txin = true := by
      by_contra hno
      exact hin (hdeps _ (List.mem_map.2 ⟨txin, List.mem_filter.2 ⟨hmem, by simpa using hno⟩, rfl⟩))
    obtain ⟨txPrev, hprev⟩ := Option.isSome_iff_exists.1 (Option.isSome_of_isSome_bind hdisk)
    rw [findPrev, if_neg (by simpa using hin), hprev, chainInputs, hprev]
    rfl

theorem totalSize_le {txs txs' : List CTransaction} (h : txs.Subperm txs') :
    totalSize txs ≤ totalSize txs' := by
  obtain ⟨l, hperm, hsub⟩ := h
  rw [totalSize, ← (hperm.map _).sum_eq]
  exact (hsub.map _).sum_le_sum fun _ _ => Nat.zero_le _

section Candidate

variable {taken : List TxPriority} {s : Progress} {c : TxPriority}
  (hsub : (taken ++ [c]).Subperm (initial ctx.toBlockCtx (takeAll ctx.toBlockCtx)).items)
  (hel : Eligible ctx.toBlockCtx r pindexBest c.tx)

include hsub hel

theorem withinLimits_takeAll (hs : Counted taken s) :
    withinLimits ctx.toBlockCtx (takeAll ctx.toBlockCtx) s c = true := by
  have hsize : s.nBlockSize + c.tx.serialize.length < 1001 + totalSize (poolTxs ctx.toBlockCtx) := by
    have hle := totalSize_le (map_tx_subperm (hsub.trans items_initial.subperm))
    rw [List.map_append, totalSize, List.map_append, List.sum_append] at hle
    rw [hs.1]
    simp only [totalSize, List.map_cons, List.map_nil, List.sum_cons, List.sum_nil] at hle ⊢
    omega
  have hfee : c.dFeePerKb = 0 := by
    obtain ⟨-, hprio⟩ := mem_candidates
      (items_initial.subset (hsub.subset (List.mem_append_right taken (List.mem_singleton_self c))))
    have heq : (⟨0, 0, true, c.tx⟩ : TxPriority) = c := by
      simpa [priorityOf, isSkipped, hel.noBase, hel.noStake, hel.final, hel.inPool, takeAll] using hprio
    rw [← heq]
  simp only [withinLimits, Bool.and_eq_true, decide_eq_true_eq]
  refine ⟨⟨⟨⟨hsize, ?_⟩, hel.timestamp⟩, ?_⟩, ?_⟩
  · rw [hs.2]
    exact (by decide : 100 < MAX_BLOCK_SIGOPS)
  · simp [stakeTimePasses, takeAll]
  · rw [hfee]
    exact Rat.le_refl

variable (hdeps : ∀ d ∈ dependsOn ctx.toBlockCtx c.tx, d ∈ taken.map (·.tx.getHash ctx.hash))

include hdeps

theorem exists_fetchInputs : ∃ mapInputs, fetchInputs ctx.txdb ctx.mempool
    ((taken.map TxPriority.tx).map (·.getHash ctx.hash)) true (fun _ => none) c.tx = some mapInputs ∧
    ∀ txin ∈ c.tx.vin, mapInputs txin.prevout.hash = chainInputs ctx.toBlockCtx txin.prevout.hash := by
  have hpool := map_tx_subperm (hsub.trans items_initial.subperm)
  have hids : ∀ h ∈ (taken.map TxPriority.tx).map (·.getHash ctx.hash), h ∈ ctx.mempool := by
    intro h hmem
    obtain ⟨t, ht, rfl⟩ := List.mem_map.1 hmem
    exact mem_mempool (hpool.subset (by simpa using .inl (by simpa using ht)))
  have hfind := findPrev_of_dependsOn hids (by simpa [List.map_map] using hdeps)
  rw [fetchInputs_eq hel.noBase, if_pos]
  · refine ⟨_, rfl, fun txin hmem => ?_⟩
    rw [fetched_of_mem hmem, Option.none_or, hfind txin hmem]
  · refine List.all_eq_true.2 fun txin hmem => ?_
    rw [getOutputFor, Option.none_or, hfind txin hmem]
    exact hel.outputs txin hmem

theorem visit_takeAll {acc : Progress} (hs : Counted taken s) :
    visitTx ctx.toBlockCtx r pindexBest (takeAll ctx.toBlockCtx) taken s c ≠ (false, acc) := by
  obtain ⟨mapInputs, hfetch, hsame⟩ := exists_fetchInputs hsub hel hdeps
  have hcheck := hel.alone
  rw [← checkAlone_congr hsame] at hcheck
  obtain ⟨⟨nValuePurchases, nClaim⟩, hcheck⟩ := Option.isSome_iff_exists.1 hcheck
  have htest : testTx ctx.toBlockCtx r pindexBest (takeAll ctx.toBlockCtx) taken s c = some 100 := by
    rw [testTx]
    simp only [hfetch, show (takeAll ctx.toBlockCtx).nTime = 0 from rfl, hs.2, Option.bind_eq_bind, Option.bind_some,
      hcheck]
    rfl
  rw [visitTx, withinLimits_takeAll hsub hel hs, htest]
  intro heq
  cases heq

end Candidate

theorem mem_takenTxs_takeAll (h : CanSelect ctx.toBlockCtx r pindexBest tx) :
    tx ∈ takenTxs ctx.toBlockCtx r pindexBest (takeAll ctx.toBlockCtx) := by
  have hentry : Selectable (fun c : TxPriority => c.tx.getHash ctx.hash)
      (fun c => dependsOn ctx.toBlockCtx c.tx) (fun c => Eligible ctx.toBlockCtx r pindexBest c.tx)
      (initial ctx.toBlockCtx (takeAll ctx.toBlockCtx)).items ⟨0, 0, true, tx⟩ := by
    refine Selectable.map (fun tx => (⟨0, 0, true, tx⟩ : TxPriority)) ?_ ?_ ?_ h
    rotate_left
    · exact fun _ => rfl
    · exact fun _ => rfl
    intro tx hmem hel
    refine ⟨items_initial.symm.subset (List.mem_filterMap.2 ⟨tx, hmem, ?_⟩), hel⟩
    simp [priorityOf, isSkipped, hel.noBase, hel.noStake, hel.final, hel.inPool, takeAll]
  refine List.mem_map.2 ⟨⟨0, 0, true, tx⟩, ?_, rfl⟩
  exact Policy.mem_taken_run (tracks_initial r pindexBest) keeps_counted ⟨rfl, rfl⟩
    (fun hs hsub hel hdeps => visit_takeAll hsub hel hdeps hs) (Nat.le_refl _) hentry

end TakeAll

def poolOf (hash : Bytes → Uint256) (txs : List CTransaction) : Map Uint256 CTransaction :=
  txs.foldl (fun m tx => m.insert (tx.getHash hash) tx) ∅

def fundingTx : CTransaction where
  nVersion := 4
  nTime := 0
  vin := []
  vout := [⟨4000000, [0x51]⟩, ⟨4000000, [0x51]⟩]
  nLockTime := 0

/-- The purchase of a staker with the alias `lone`, paid by one of them. -/
def lonePurchase (n : UInt32) : CTransaction where
  nVersion := 4
  nTime := 0
  vin := [⟨⟨fundingTx.getHash rollingHash, n⟩, [], 0xffffffff⟩]
  vout := [⟨0, 0x39 :: ([0, 0, 0, 0, 0, 0x3d, 0x09, 0x00] ++ soloKey ++ [108, 111, 110, 101] ++
    List.replicate 12 0 ++ [opPurchase1])⟩]
  nLockTime := 0

def loneMempool : Map Uint256 CTransaction := poolOf rollingHash [lonePurchase 0, lonePurchase 1]

theorem getElem?_loneMempool {h : Uint256} {tx : CTransaction} (hget : loneMempool[h]? = some tx) :
    tx.getHash rollingHash = h ∧ h ≠ fundingTx.getHash rollingHash := by
  have hother : ∀ n, n = 0 ∨ n = 1 →
      (lonePurchase n).getHash rollingHash ≠ fundingTx.getHash rollingHash := by
    rintro n (rfl | rfl) <;> decide +kernel
  simp only [loneMempool, poolOf, List.foldl_cons, List.foldl_nil, getElem?_insert,
    Std.LawfulEqOrd.compare_eq_iff_eq, getElem?_empty] at hget
  split at hget
  · next heq =>
    cases hget
    exact ⟨heq, heq ▸ hother 1 (.inr rfl)⟩
  · split at hget
    · next heq =>
      cases hget
      exact ⟨heq, heq ▸ hother 0 (.inl rfl)⟩
    · cases hget

def loneCtx : PoolCtx where
  env := mainEnv
  now := 1700000000
  nBestHeight := 5800000
  blockOf h := if h ∈ loneMempool then some 0 else some 1
  isInMainChain _ := some true
  hash := rollingHash
  txdb h := if h = fundingTx.getHash rollingHash then some fundingTx else none
  mempool := loneMempool
  hash_eq hget := (getElem?_loneMempool hget).1
  unconfirmed hmem := by
    obtain ⟨tx, hget⟩ := Tally.exists_getElem? hmem
    exact if_neg (getElem?_loneMempool hget).2
  blockOf_pool hmem := if_pos hmem

def loneBest : CBlockIndex where
  hashBlock := 5
  nHeight := 5800000
  nTime := 1600000000
  nStakerID := 1
  nMoneySupply := 12000000000
  vDeets := []

end Stealth

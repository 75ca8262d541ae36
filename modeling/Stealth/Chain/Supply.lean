import Stealth.Chain.Spends

/-! The money supply. Apart from a coinbase and a coinstake nothing creates more than it spends and claims. -/

namespace Stealth

open OptionFold

variable {E : ChainEnv} {mempool : Map Uint256 CTransaction} {r : QPRegistry} {ctx : CheckCtx}
  {tx : CTransaction} {inputs : MapPrevIndex} {st st' : ConnectState} {done : List CTransaction}

def CTransaction.claimValue (tx : CTransaction) : Int := ((findClaim tx).map QposClaim.value).getD 0

def purchasePrice (nfts : NftTable) (txout : CTxOut) : Option Int :=
  match solver txout.scriptPubKey with
  | some (t, vSolutions) =>
    if t = .purchase1 ∨ t = .purchase4 then some (extractPurchase nfts (vSolutions.headD [])).value
    else none
  | none => none

def CTransaction.purchaseValue (nfts : NftTable) (tx : CTransaction) : Int :=
  (tx.vout.filterMap (purchasePrice nfts)).sum

namespace CBlock

def valueOut (b : CBlock) : Int := (b.vtx.map CTransaction.getValueOut).sum

def valueOfClaims (b : CBlock) : Int := (b.vtx.map CTransaction.claimValue).sum

def valueOfPurchases (nfts : NftTable) (b : CBlock) : Int :=
  (b.vtx.map (CTransaction.purchaseValue nfts)).sum

end CBlock

/-- The value of an output, in the transaction that an index refers to. -/
def valueAt (E : ChainEnv) (mempool : Map Uint256 CTransaction) (index : Uint256 → Option CTxIndex)
    (o : COutPoint) : Int :=
  (((index o.hash).bind fun txindex => E.readPrev mempool o.hash txindex.pos).bind fun txPrev =>
    (txPrev.vout[o.n.toNat]?).map fun txout => txout.nValue.toInt).getD 0

def CTransaction.valueSpent (E : ChainEnv) (mempool : Map Uint256 CTransaction)
    (index : Uint256 → Option CTxIndex) (tx : CTransaction) : Int :=
  (tx.spends.map (valueAt E mempool index)).sum

def Node.valueSpent (E : ChainEnv) (n : Node) (b : CBlock) : Int :=
  (b.vtx.map (CTransaction.valueSpent E n.mempool n.txIndex)).sum

variable {o : COutPoint} {fCheckMerkleRoot fCheckSig fCheckQPoS : Bool} {vtx : List CTransaction}
  {disk : Disk} {nStakerPrice : Int} {mapTestPool : MapTxIndex} {pindexPrev : CBlockIndex}

theorem valueAt_congr {index index' : Uint256 → Option CTxIndex}
    (h : (index' o.hash).map CTxIndex.pos = (index o.hash).map CTxIndex.pos) :
    valueAt E mempool index' o = valueAt E mempool index o := by
  have hread : ∀ f : Uint256 → Option CTxIndex,
      ((f o.hash).bind fun txindex => E.readPrev mempool o.hash txindex.pos) =
        ((f o.hash).map CTxIndex.pos).bind (E.readPrev mempool o.hash) := by
    intro f
    rw [Option.bind_map]
    rfl
  rw [valueAt, valueAt, hread, hread, h]

theorem value_purchaseName {env : QPEnv} {purchase purchase' : QposPurchase} {sLC : Bytes}
    (h : purchaseName env r purchase = some (sLC, purchase')) : purchase'.value = purchase.value := by
  rw [purchaseName] at h
  split at h
  · obtain ⟨_, -, heq⟩ := Option.map_eq_some_iff.1 h
    cases heq
    rfl
  · split at h
    · cases h
    · dsimp only at h
      split at h
      · cases h
        rfl
      · split at h
        · cases h
          rfl
        · cases h

theorem sum_checkPurchase {mapRet mapRet' : Map Bytes QposPurchase} {txout : CTxOut}
    (h : checkPurchase ctx r nStakerPrice mapRet txout = some mapRet') :
    Tally.sumOver (fun _ purchase => purchase.value) mapRet' =
      Tally.sumOver (fun _ purchase => purchase.value) mapRet +
        (purchasePrice ctx.env.nfts txout).getD 0 := by
  rw [checkPurchase] at h
  rw [purchasePrice]
  split at h
  · cases h
  · next t vSolutions hsolver =>
    rw [hsolver]
    dsimp only at h ⊢
    split at h
    · next hother =>
      cases h
      rw [if_neg (by tauto), Option.getD_none, Int.add_zero]
    · next hkind =>
      rw [if_pos (by tauto), Option.getD_some]
      split at h
      · cases h
      · split at h
        · split at h
          · cases h
          · next sLC purchase hname =>
            split at h
            · cases h
            · next hnew =>
              cases h
              have hnone : mapRet[sLC]? = none :=
                getElem?_eq_none (by simpa using hnew)
              rw [Tally.sumOver_insert, Tally.sumOver_erase_of_none _ hnone,
                value_purchaseName hname, Int.add_comm]
        · cases h

theorem sum_checkPurchases : ∀ {vout : List CTxOut} {mapRet mapRet' : Map Bytes QposPurchase},
      vout.foldlM (checkPurchase ctx r nStakerPrice) mapRet = some mapRet' →
      Tally.sumOver (fun _ purchase => purchase.value) mapRet' =
        Tally.sumOver (fun _ purchase => purchase.value) mapRet +
          (vout.filterMap (purchasePrice ctx.env.nfts)).sum
  | [], mapRet, mapRet', h => by
    cases h
    simp
  | txout :: vout, mapRet, mapRet', h => by
    obtain ⟨mapRet₁, hstep, hrest⟩ := foldlM_cons_eq_some.1 h
    rw [sum_checkPurchases hrest, sum_checkPurchase hstep, List.filterMap_cons]
    cases purchasePrice ctx.env.nfts txout with
    | none => simp
    | some price => simp [Int.add_assoc]

theorem claimValue_checkClaim {mapInputs : MapPrevTx}
    {claim : QposClaim} (h : checkClaim ctx r mapInputs tx = some claim) : claim.value = tx.claimValue := by
  rw [checkClaim] at h
  rw [CTransaction.claimValue]
  split at h
  · cases h
  · split at h
    · next hnone =>
      cases h
      rw [hnone]
      rfl
    · next claim' hfind =>
      rw [hfind]
      split_ifs at h
      cases h
      rfl

theorem checkInputs_sum {nBestHeight : Int} {pmemIndex : MemChain} :
    ∀ {vin : List CTxIn} {nValueIn nValueIn' : Int},
    vin.foldlM (checkInput E nBestHeight pmemIndex inputs tx) nValueIn = some nValueIn' →
      nValueIn' = nValueIn +
        (vin.map fun txin => ((getOutputFor inputs.txs txin).map fun o => o.nValue.toInt).getD 0).sum
  | [], nValueIn, nValueIn', h => by
    cases h
    simp
  | txin :: vin, nValueIn, nValueIn', h => by
    obtain ⟨nValueIn₁, hstep, hrest⟩ := foldlM_cons_eq_some.1 h
    rw [checkInputs_sum hrest, List.map_cons, List.sum_cons, ← Int.add_assoc]
    congr 1
    rw [checkInput] at hstep
    split at hstep
    · cases hstep
    · next txindex txPrev hinput =>
      split at hstep
      · cases hstep
      · next txout hout =>
        dsimp only at hstep
        split_ifs at hstep
        cases hstep
        rw [getOutputFor, MapPrevIndex.txs, hinput, Option.map_some, Option.bind_some, hout]
        rfl

theorem valueAt_of_fetched (h : fetchBlockInputs E disk mempool mapTestPool tx = some inputs)
    {txin : CTxIn} (htxin : txin ∈ tx.vin) :
    ((getOutputFor inputs.txs txin).map fun o => o.nValue.toInt).getD 0 =
      valueAt E mempool (lookupOver disk mapTestPool) txin.prevout := by
  have hentries := of_fetchBlockInputs h
  obtain ⟨inputs', -, hcheck⟩ := Option.bind_eq_some_iff.1 h
  split at hcheck
  · next hall =>
    cases hcheck
    obtain ⟨⟨txindex, txPrev⟩, hinput, -⟩ := (Option.any_eq_true ..).1 (List.all_eq_true.1 hall txin htxin)
    obtain ⟨hindex, hread⟩ := hentries _ _ _ hinput
    rw [getOutputFor, MapPrevIndex.txs, hinput, Option.map_some, Option.bind_some, valueAt, hindex,
      Option.bind_some, hread, Option.bind_some]
  · cases hcheck

theorem getValueIn_eq (h : fetchBlockInputs E disk mempool mapTestPool tx = some inputs) :
    getValueIn inputs tx =
      (tx.vin.map fun txin => valueAt E mempool (lookupOver disk mapTestPool) txin.prevout).sum :=
  congrArg List.sum (List.map_congr_left fun _ htxin => valueAt_of_fetched h htxin)

variable {E : ChainEnv} {c : ConnectCtx}

/-- What one transaction adds to the sums of `ConnectBlock`. -/
structure Adds (E : ChainEnv) (c : ConnectCtx) (st st' : ConnectState) (tx : CTransaction) : Prop where
  out : st'.nValueOut = st.nValueOut + tx.getValueOut
  spent : st'.nValueIn - st'.nValueClaims = st.nValueIn - st.nValueClaims +
    tx.valueSpent E c.node.mempool (lookupOver c.disk st.mapQueuedChanges)
  /-- The fee of a transaction that is no coinbase and no coinstake is not negative. -/
  bounded : tx.isCoinBase = false → tx.isCoinStake = false →
    tx.getValueOut - tx.valueSpent E c.node.mempool (lookupOver c.disk st.mapQueuedChanges) ≤
      tx.claimValue - tx.purchaseValue E.env.nfts

theorem claimAndPurchases_eq {nClaim nPurchases : Int}
    (h : claimAndPurchases E c inputs tx = some (nClaim, nPurchases)) (hstake : tx.isCoinStake = false) :
    nClaim = tx.claimValue ∧ nPurchases = tx.purchaseValue E.env.nfts := by
  rw [claimAndPurchases, if_neg (by rw [hstake]; decide)] at h
  obtain ⟨claim, hclaim, h⟩ := Option.bind_eq_some_iff.1 h
  obtain ⟨mapPurchases, hpurchases, heq⟩ := Option.map_eq_some_iff.1 h
  cases heq
  refine ⟨claimValue_checkClaim hclaim, ?_⟩
  have hsum := sum_checkPurchases hpurchases
  rw [Tally.sumOver_empty, Int.zero_add] at hsum
  exact hsum

theorem connectSpending_adds {posThisTx : CDiskTxPos}
    (hbase : tx.isCoinBase = false) (h : connectSpending E c posThisTx st tx = some st') :
    Adds E c st st' tx := by
  obtain ⟨inputs, hfetch, h⟩ := Option.bind_eq_some_iff.1 h
  dsimp only at h
  split at h
  · cases h
  · obtain ⟨⟨nClaim, nPurchases⟩, hclaim, h⟩ := Option.bind_eq_some_iff.1 h
    obtain ⟨queued, hconnect, rfl⟩ := Option.map_eq_some_iff.1 h
    have hspent : tx.valueSpent E c.node.mempool (lookupOver c.disk st.mapQueuedChanges) =
        getValueIn inputs tx := by
      rw [getValueIn_eq hfetch, CTransaction.valueSpent, CTransaction.spends,
        if_neg (by rw [hbase]; decide), List.map_map]
      rfl
    refine ⟨rfl, ?_, fun _ hstake => ?_⟩
    · dsimp only
      rw [hspent]
      omega
    · obtain ⟨hnClaim, hnPurchases⟩ := claimAndPurchases_eq hclaim hstake
      obtain ⟨nValueIn, hsum, hconnect⟩ := Option.bind_eq_some_iff.1 hconnect
      obtain ⟨_, -, hfees⟩ := Option.bind_eq_some_iff.1 hconnect
      have hvalue := checkInputs_sum hsum
      rw [Int.zero_add] at hvalue
      split at hfees
      · next hvalid =>
        rw [feesAreValid, if_neg (by rw [hstake]; decide)] at hvalid
        simp only [Bool.and_eq_true, decide_eq_true_eq] at hvalid
        have hfee := hvalid.1.1
        rw [hspent, ← hnClaim, ← hnPurchases, getValueIn, ← hvalue]
        omega
      · cases hfees

theorem connectTx_adds (h : connectTx E c st tx = some st') : Adds E c st st' tx := by
  obtain ⟨-, nSigOps, nTxPos, st₁, rfl, ⟨hbase, rfl⟩ | ⟨hbase, hinputs⟩⟩ := connectTx_cases h
  · refine ⟨rfl, ?_, fun hnot => by rw [hbase] at hnot; cases hnot⟩
    rw [CTransaction.valueSpent, CTransaction.spends, if_pos hbase]
    simp
  · have hadds := connectSpending_adds hbase hinputs
    exact ⟨hadds.out, hadds.spent, hadds.bounded⟩

theorem posOf_indexOver (disk : Disk) (q : MapTxIndex) (h : Uint256) :
    Outputs.posOf (indexOver disk q) h = (lookupOver disk q h).map CTxIndex.pos := by
  rw [Outputs.posOf, indexOver, Option.map_map]
  rfl

theorem overwritesUnspent_of_markOf {o : Uint256 × Nat}
    (h : (Outputs.markOf (Disk.outputs c.disk) o).any CDiskTxPos.isNull) :
    overwritesUnspent c o.1 = true := by
  obtain ⟨pos, hmark, hnull⟩ := (Option.any_eq_true ..).1 h
  obtain ⟨entry, hentry, hget⟩ := Option.bind_eq_some_iff.1 hmark
  obtain ⟨txindex, hindex, rfl⟩ := Option.map_eq_some_iff.1 hentry
  rw [overwritesUnspent, hindex, Option.any_some, List.any_eq_true]
  exact ⟨pos, List.mem_of_getElem? hget, hnull⟩

/-- What the pending changes show as unspent is so in the store, apart from the given transactions. -/
def UnspentIn (E : ChainEnv) (c : ConnectCtx) (done : List CTransaction) (st : ConnectState) : Prop :=
  ∀ o, o.1 ∉ done.map (CTransaction.getHash E.hash) →
    (Outputs.markOf (indexOver c.disk st.mapQueuedChanges) o).any CDiskTxPos.isNull →
    (Outputs.markOf (Disk.outputs c.disk) o).any CDiskTxPos.isNull

theorem UnspentIn.connectTx (hst : UnspentIn E c done st) (h : connectTx E c st tx = some st') :
    UnspentIn E c (done ++ [tx]) st' := by
  intro o ho hfree
  obtain ⟨t, ht, -, hconnect⟩ := connectTx_connects h
  rw [List.map_append, List.mem_append, not_or] at ho
  refine hst o ho.1 (Outputs.connect_unspent hconnect (fun heq => ho.2 ?_) hfree)
  rw [heq, ht.id]
  exact List.mem_singleton.2 rfl

/-- The transaction that an input refers to stays where it is until all transactions are connected: it
has an unspent output, so that no transaction takes its id. -/
theorem pos_of_input (hst : UnspentIn E c done st)
    (hids : ((done ++ tx :: vtx).map (CTransaction.getHash E.hash)).Nodup)
    (h : (tx :: vtx).foldlM (Stealth.connectTx E c) st = some st') (ho : o ∈ tx.spends) :
    (lookupOver c.disk st'.mapQueuedChanges o.hash).map CTxIndex.pos =
      (lookupOver c.disk st.mapQueuedChanges o.hash).map CTxIndex.pos := by
  obtain ⟨st₁, hstep, -⟩ := foldlM_cons_eq_some.1 h
  obtain ⟨t, ht, -, hconnect⟩ := connectTx_connects hstep
  obtain ⟨ix, hspend, -⟩ := Option.map_eq_some_iff.1 hconnect
  have hunspent := Outputs.unspent_of_spend hspend o.output
    (by rw [ht.inputs]; exact List.mem_map_of_mem ho)
  obtain ⟨ts, hts, -, hconnects⟩ := connectTxs_connect h
  rw [← posOf_indexOver, ← posOf_indexOver]
  refine Outputs.posOf_connect hconnects o.hash fun hmem => ?_
  rw [ids_of_mirrors hts] at hmem
  obtain ⟨u, hu, hid⟩ := List.mem_map.1 hmem
  rw [List.map_append] at hids
  have hnot : o.hash ∉ done.map (CTransaction.getHash E.hash) :=
    fun hdone => (List.nodup_append'.1 hids).2.2 hdone hmem
  obtain ⟨s, s', hu⟩ := exists_step_of_foldlM hu h
  have hoverwrites := overwritesUnspent_of_markOf (hst o.output hnot hunspent)
  have hfalse := (connectTx_cases hu).1
  rw [hid] at hfalse
  exact absurd (hfalse.symm.trans hoverwrites) Bool.false_ne_true

theorem valueSpent_eq (hst : UnspentIn E c done st)
    (hids : ((done ++ tx :: vtx).map (CTransaction.getHash E.hash)).Nodup)
    (h : (tx :: vtx).foldlM (Stealth.connectTx E c) st = some st') :
    tx.valueSpent E c.node.mempool (lookupOver c.disk st.mapQueuedChanges) =
      tx.valueSpent E c.node.mempool (lookupOver c.disk st'.mapQueuedChanges) :=
  congrArg List.sum (List.map_congr_left fun _ ho => (valueAt_congr (pos_of_input hst hids h ho)).symm)

/-- The sums of `ConnectBlock` over transactions, in terms of the index that they leave. -/
structure AddsAll (E : ChainEnv) (c : ConnectCtx) (st st' : ConnectState) (vtx : List CTransaction) :
    Prop where
  out : st'.nValueOut = st.nValueOut + (vtx.map CTransaction.getValueOut).sum
  spent : st'.nValueIn - st'.nValueClaims = st.nValueIn - st.nValueClaims +
    (vtx.map (CTransaction.valueSpent E c.node.mempool (lookupOver c.disk st'.mapQueuedChanges))).sum
  bounded : (∀ tx ∈ vtx, tx.isCoinBase = false ∧ tx.isCoinStake = false) →
    (vtx.map CTransaction.getValueOut).sum -
        (vtx.map (CTransaction.valueSpent E c.node.mempool
          (lookupOver c.disk st'.mapQueuedChanges))).sum ≤
      (vtx.map CTransaction.claimValue).sum - (vtx.map (CTransaction.purchaseValue E.env.nfts)).sum

theorem connectTxs_adds : ∀ {vtx done : List CTransaction} {st st' : ConnectState},
    vtx.foldlM (connectTx E c) st = some st' → UnspentIn E c done st →
      ((done ++ vtx).map (CTransaction.getHash E.hash)).Nodup → AddsAll E c st st' vtx
  | [], done, st, st', h, _, _ => by
    cases h
    constructor <;> simp
  | tx :: vtx, done, st, st', h, hst, hids => by
    have hspent := valueSpent_eq hst hids h
    obtain ⟨st₁, hstep, hrest⟩ := foldlM_cons_eq_some.1 h
    rw [← List.singleton_append, ← List.append_assoc] at hids
    have hall := connectTxs_adds hrest (hst.connectTx hstep) hids
    obtain ⟨hout, hin, hbounded⟩ := connectTx_adds hstep
    rw [hspent] at hin hbounded
    refine ⟨?_, ?_, fun hkinds => ?_⟩
    · rw [hall.out, hout, List.map_cons, List.sum_cons, Int.add_assoc]
    · rw [hall.spent, hin, List.map_cons, List.sum_cons, Int.add_assoc]
    · obtain ⟨hkind, hkinds⟩ := List.forall_mem_cons.1 hkinds
      have hfirst := hbounded hkind.1 hkind.2
      have hothers := hall.bounded hkinds
      simp only [List.map_cons, List.sum_cons]
      omega

def Node.record (n : Node) (hash : Uint256) : Option CDiskBlockIndex := Disk.blockIndex n.db.txdb.view hash

theorem Node.record_congr {n n' : Node} {hash : Uint256}
    (h : n'.db.txdb.view (.blockIndex hash) = n.db.txdb.view (.blockIndex hash)) :
    n'.record hash = n.record hash :=
  congrArg (Option.map CDiskBlockIndex.setExtendedSerialization) h

theorem Node.record_writeIndex (n : Node) (hash : Uint256) (r : CDiskBlockIndex) :
    (n.writeIndex hash r).record hash = some r.setExtendedSerialization :=
  (congrArg (Disk.blockIndex · hash) (Node.view_put n (.blockIndex hash) (some r))).trans
    (blockIndex_update_self n.db.txdb.view hash r)

theorem Node.record_writeIndex_of_ne (n : Node) {hash hash' : Uint256} (hne : hash' ≠ hash)
    (r : CDiskBlockIndex) : (n.writeIndex hash r).record hash' = n.record hash' :=
  Node.record_congr (Node.view_put_of_ne n (fun heq => hne (DBKey.blockIndex.inj heq)) (some r))

theorem record_exploreConnect (E : ChainEnv) (b : CBlock) (n : Node) (hash : Uint256) :
    (exploreConnect E b n).record hash = n.record hash := by
  rw [exploreConnect]
  split
  · rfl
  · exact Node.record_congr (Node.view_applyExplore n (k := .blockIndex hash) (fun _ heq => by cases heq) _)

theorem record_writeConnected (E : ChainEnv) (b : CBlock) {m p : CBlockMemIndex}
    (hne : m.hashBlock ≠ p.hashBlock) (r rPrev : CDiskBlockIndex) (mapQueuedChanges : MapTxIndex) (n : Node) :
    (writeConnected E b m p r rPrev mapQueuedChanges n).record m.hashBlock =
        some r.setExtendedSerialization ∧
      (writeConnected E b m p r rPrev mapQueuedChanges n).record p.hashBlock =
        some (rPrev.setNext m.hashBlock).setExtendedSerialization := by
  rw [writeConnected]
  refine ⟨?_, ?_⟩
  · rw [record_exploreConnect, Node.record_writeIndex_of_ne _ hne, ← Node.record_writeIndex n]
    refine Node.record_congr (Node.view_foldl_put (fun e : Uint256 × CTxIndex => .tx e.1)
      (fun e => some e.2) mapQueuedChanges.toList _ fun e _ heq => by cases heq)
  · rw [record_exploreConnect, Node.record_writeIndex]

/-- The supply changes by what a block creates without what it spends, which is at most what it claims
without what it pays for stakers, and producing the block creates no outputs. -/
def SupplyRule (E : ChainEnv) (m p : CBlockMemIndex) (b : CBlock) (n : Node) : Prop :=
  ∃ record recordPrev, n.record m.hashBlock = some record ∧ n.record p.hashBlock = some recordPrev ∧
    record.nMoneySupply - recordPrev.nMoneySupply = b.valueOut - n.valueSpent E b ∧
    record.nMoneySupply - recordPrev.nMoneySupply ≤
      b.valueOfClaims - b.valueOfPurchases E.env.nfts ∧
    ∀ tx ∈ b.vtx, (tx.isCoinBase || tx.isCoinStake) = true → tx.vout = []

variable {m p : CBlockMemIndex} {rest : MemChain} {b : CBlock} {r r' : QPRegistry} {n n' : Node}

theorem mempool_writeConnected (E : ChainEnv) (b : CBlock) (m p : CBlockMemIndex)
    (r rPrev : CDiskBlockIndex) (mapQueuedChanges : MapTxIndex) (n : Node) :
    (writeConnected E b m p r rPrev mapQueuedChanges n).mempool = n.mempool := by
  have hexplore : ∀ n, (exploreConnect E b n).mempool = n.mempool := by
    intro n
    rw [exploreConnect]
    split
    · rfl
    · next api _ =>
      obtain ⟨txdb, heq⟩ := n.applyExplore_eq (api.connect n.db.txdb.view n.mapAddressBalances b)
      rw [heq]
  obtain ⟨txdb, heq⟩ := Node.foldl_put_eq (fun e : Uint256 × CTxIndex => .tx e.1) (fun e => some e.2)
    mapQueuedChanges.toList (n.writeIndex m.hashBlock r)
  rw [writeConnected, hexplore]
  exact (congrArg Node.mempool heq :)

theorem Connection.supply (con : Connection E m p rest b r n n' r') (hne : m.hashBlock ≠ p.hashBlock)
    (hfork : .purchase3 ≤ getFork E.env.fTestNet (n.best.nBestHeight + 1)) :
    ∃ record recordPrev, n'.record m.hashBlock = some record ∧ n'.record p.hashBlock = some recordPrev ∧
      record.nMoneySupply - recordPrev.nMoneySupply = b.valueOut - n'.valueSpent E b ∧
      ((∀ tx ∈ b.vtx, tx.isCoinBase = false ∧ tx.isCoinStake = false) →
        b.valueOut - n'.valueSpent E b ≤ b.valueOfClaims - b.valueOfPurchases E.env.nfts) := by
  obtain ⟨hrecord, hrecordPrev⟩ := record_writeConnected E b hne
    (connectedIndex E ⟨n.withCache con.mapCache, r', m, p :: rest, con.diskIndex,
      con.diskIndexPrev.nMoneySupply⟩ con.vDeets con.st)
    con.diskIndexPrev con.st.mapQueuedChanges (n.withCache con.mapCache)
  have hadds := @connectTxs_adds _ _ b.vtx [] _ _ con.connected
    (fun o _ hfree => by rwa [indexOver_empty] at hfree) con.nodup_ids
  have hspent : n'.valueSpent E b = con.st.nValueIn - con.st.nValueClaims := by
    have hmempool : n'.mempool = n.mempool :=
      (congrArg Node.mempool con.written).trans (mempool_writeConnected ..)
    rw [Node.valueSpent, hmempool, con.txIndex_eq]
    exact (hadds.spent.trans (Int.zero_add _)).symm
  have hout : con.st.nValueOut = b.valueOut := hadds.out.trans (Int.zero_add _)
  refine ⟨_, _, (congrArg (Node.record · m.hashBlock) con.written).trans hrecord,
    (congrArg (Node.record · p.hashBlock) con.written).trans hrecordPrev, ?_, fun hkinds => ?_⟩
  · have hsupply : (connectedIndex E ⟨n.withCache con.mapCache, r', m, p :: rest, con.diskIndex,
        con.diskIndexPrev.nMoneySupply⟩ con.vDeets con.st).nMoneySupply =
        con.diskIndexPrev.nMoneySupply + con.st.nValueOut - (con.st.nValueIn - con.st.nValueClaims) :=
      if_pos hfork
    rw [hspent, ← hout]
    change (connectedIndex E _ con.vDeets con.st).nMoneySupply - con.diskIndexPrev.nMoneySupply = _
    rw [hsupply]
    omega
  · have hbounded := hadds.bounded hkinds
    rw [hspent, hadds.spent]
    change b.valueOut - (0 - 0 + _) ≤ _
    rw [Int.sub_self, Int.zero_add]
    exact hbounded

theorem CheckBlockCtx.noBase_of_contents {ctx : CheckBlockCtx}
    (h : ctx.contentsAreValid fCheckMerkleRoot fCheckSig fCheckQPoS pindexPrev r b = true)
    (hfork : .qpos ≤ ctx.fork b.nHeight.toInt) :
    ∀ tx ∈ b.vtx, tx.isCoinBase = false ∧ tx.isCoinStake = false := by
  simp only [contentsAreValid, Bool.and_eq_true] at h
  have hkinds := h.1.1.1.1.1.1
  rw [kindsAreValid, if_pos hfork] at hkinds
  simpa using (Bool.and_eq_true_iff.1 hkinds).1

theorem CheckBlockCtx.exists_base_of_contents {ctx : CheckBlockCtx}
    (h : ctx.contentsAreValid fCheckMerkleRoot fCheckSig fCheckQPoS pindexPrev r b = true)
    (hfork : ¬ .qpos ≤ ctx.fork b.nHeight.toInt) :
    ∃ tx ∈ b.vtx, tx.isCoinBase = true ∧ tx.vout ≠ [] := by
  simp only [contentsAreValid, Bool.and_eq_true] at h
  have hkinds := h.1.1.1.1.1.1
  have htxs := h.1.1.2
  rw [kindsAreValid, if_neg hfork] at hkinds
  split at hkinds
  · cases hkinds
  · next base others hvtx =>
    have hmem : base ∈ b.vtx := by rw [hvtx]; exact List.mem_cons_self
    simp only [transactionsAreValid, checkTransaction, Bool.and_eq_true, List.all_eq_true] at htxs
    have hvout := (htxs.1.1 base hmem).1.1.1.1.1.2
    exact ⟨base, hmem, (Bool.and_eq_true_iff.1 hkinds).1, by simpa using hvout⟩

section Solo

open QPRegistry

def soloRecord (n : Nat) : CDiskBlockIndex :=
  { minedRecord 0 with toCBlockIndex := soloBlock n, nVersion := 8, nFlags := CDiskBlockIndex.BLOCK_QPOS }

def soloIndex (n : Nat) : CBlockMemIndex := ⟨(soloBlock n).hashBlock, 1, 2000⟩

/-- A node at a height of the chain with one staker, with one unspent output. -/
def soloNode (n : Nat) : Node :=
  { minedNode with
    db.txdb.disk := fun
      | .tx h => if h = 7 then some (.unspent ⟨1, 1000, 0⟩ 1) else none
      | .blockIndex h =>
        if h = (soloBlock n).hashBlock then some (soloRecord n)
        else if h = (soloBlock (n + 1)).hashBlock then some (soloRecord (n + 1)) else none
      | _ => none
    best := ⟨[soloIndex n], soloRecord n, (soloBlock n).hashBlock, n, 0⟩ }

def soloEnv (n : Nat) : ChainEnv :=
  { minedEnv with
    now := (soloBlock (n + 1)).nTime.toNat
    hash9 := fun _ => (soloBlock (n + 1)).hashBlock
    readTx := fun _ => some (payTx 0) }

def connectSolo (n : Nat) (b : CBlock) (r : QPRegistry) : Run (Node × QPRegistry) :=
  connectBlock (soloEnv n) [soloIndex (n + 1), soloIndex n] b r (soloNode n)

/-- A block of the staker at a height between the two forks, with a coinbase of five coins and a payment. -/
def coinbaseBlock : CBlock :=
  { minedBlock (soloBlock 3690000).nTime [mineTx 1, payTx 7] with
    nVersion := 8
    hashPrevBlock := (soloBlock 3689999).hashBlock
    nHeight := 3690000
    nStakerID := 1
    vchBlockSig := [1] }

end Solo

end Stealth

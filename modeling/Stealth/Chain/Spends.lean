import Stealth.Lib.Fallible
import Stealth.Lib.Outputs
import Stealth.Chain.Commitment
import Stealth.Chain.Reorganize

/-!
The transaction index as an index of outputs: seen through the pending changes and the store, the
transactions of a block are connected one after the other.
-/

namespace Stealth

open OptionFold

variable {E : ChainEnv} {disk : Disk} {tx : CTransaction} {posThisTx : CDiskTxPos}
  {hash : Bytes → Uint256} {vtx : List CTransaction}
  {ts : List (Outputs.Tx Uint256 CDiskTxPos CDiskTxPos)} {k : DBKey} {r r' : QPRegistry}
  {b : CBlock} {n n' : Node} {m p : CBlockMemIndex} {rest : MemChain}

/-- An entry with the places where its outputs are spent as marks. A null place is an unspent output. -/
def CTxIndex.entry (txindex : CTxIndex) : Outputs.Entry CDiskTxPos CDiskTxPos :=
  ⟨txindex.pos, txindex.vSpent⟩

abbrev OutputIndex := Outputs.Index Uint256 CDiskTxPos CDiskTxPos

abbrev spendAt (pos : CDiskTxPos) (ix : OutputIndex) (o : Uint256 × Nat) : Option OutputIndex :=
  Outputs.spend CDiskTxPos.isNull pos ix o

abbrev connectOutputs (ix : OutputIndex) (t : Outputs.Tx Uint256 CDiskTxPos CDiskTxPos) :
    Option OutputIndex :=
  Outputs.connect CDiskTxPos.isNull CDiskTxPos.null ix t

def lookupOver (disk : Disk) (mapQueuedChanges : MapTxIndex) (h : Uint256) : Option CTxIndex :=
  mapQueuedChanges[h]?.or (disk.txIndex h)

def indexOver (disk : Disk) (mapQueuedChanges : MapTxIndex) : OutputIndex :=
  fun h => (lookupOver disk mapQueuedChanges h).map CTxIndex.entry

def Disk.outputs (disk : Disk) : OutputIndex := fun h => (disk.txIndex h).map CTxIndex.entry

theorem lookupOver_insert (disk : Disk) (q : MapTxIndex) (h : Uint256) (e : CTxIndex) :
    lookupOver disk (q.insert h e) = Function.update (lookupOver disk q) h (some e) := by
  funext k
  rw [lookupOver, getElem?_insert, Function.update_apply]
  by_cases hk : h = k
  · simp [hk]
  · simp [hk, Ne.symm hk, lookupOver]

theorem indexOver_insert (disk : Disk) (q : MapTxIndex) (h : Uint256) (e : CTxIndex) :
    indexOver disk (q.insert h e) = Function.update (indexOver disk q) h (some e.entry) := by
  funext k
  rw [indexOver, lookupOver_insert, Function.update_apply, Function.update_apply]
  split <;> rfl

theorem indexOver_empty (disk : Disk) : indexOver disk ∅ = disk.outputs := by
  funext h
  simp [indexOver, lookupOver, Disk.outputs]

def COutPoint.output (o : COutPoint) : Uint256 × Nat := (o.hash, o.n.toNat)

/-- The outpoints that a transaction spends. The input of a coinbase is not one. -/
def CTransaction.spends (tx : CTransaction) : List COutPoint :=
  if tx.isCoinBase then [] else tx.vin.map CTxIn.prevout

def Fetched (disk : Disk) (st : MapPrevIndex × MapTxIndex) : Prop :=
  ∀ h txindex txPrev, st.1 h = some (txindex, txPrev) → lookupOver disk st.2 h = some txindex

def ChainEnv.readPrev (E : ChainEnv) (mempool : Map Uint256 CTransaction) (h : Uint256)
    (pos : CDiskTxPos) : Option CTransaction :=
  if pos = ⟨1, 1, 1⟩ then mempool[h]? else E.readTx pos

variable {bs : List CBlock} {st' st : ConnectState} {fLockTime : Bool} {nBestHeight : Int}
  {inputs : MapPrevIndex} {mapTestPool : MapTxIndex} {mempool : Map Uint256 CTransaction}

theorem of_fetchBlockInputs (h : fetchBlockInputs E disk mempool mapTestPool tx = some inputs) :
    ∀ k txindex txPrev, inputs k = some (txindex, txPrev) →
      lookupOver disk mapTestPool k = some txindex ∧ E.readPrev mempool k txindex.pos = some txPrev := by
  obtain ⟨inputs', hfold, hcheck⟩ := Option.bind_eq_some_iff.1 h
  split at hcheck
  · cases hcheck
    refine foldlM_invariant (P := fun inputs : MapPrevIndex => ∀ k txindex txPrev,
      inputs k = some (txindex, txPrev) → lookupOver disk mapTestPool k = some txindex ∧
        E.readPrev mempool k txindex.pos = some txPrev) ?_ (fun _ _ _ hnone => by cases hnone) hfold
    intro inputs txin inputs' hinputs hstep
    rw [fetchBlockInput] at hstep
    split at hstep
    · cases hstep
      exact hinputs
    · split at hstep
      · cases hstep
      · next txindex hindex =>
        obtain ⟨txPrev, hread, rfl⟩ := Option.map_eq_some_iff.1 hstep
        intro k e t hk
        rw [Function.update_apply] at hk
        split at hk
        · next heq =>
          cases hk
          rw [heq]
          exact ⟨hindex, hread⟩
        · exact hinputs k e t hk
  · cases hcheck

theorem fetched_fetchBlockInputs (h : fetchBlockInputs E disk mempool mapTestPool tx = some inputs) :
    Fetched disk (inputs, mapTestPool) :=
  fun k txindex txPrev hk => (of_fetchBlockInputs h k txindex txPrev hk).1

theorem spendInput_spends {st st' : MapPrevIndex × MapTxIndex} {input : CTxIn × Nat}
    (hst : Fetched disk st) (h : spendInput E nBestHeight fLockTime posThisTx tx st input = some st') :
    spendAt posThisTx (indexOver disk st.2) input.1.prevout.output =
      some (indexOver disk st'.2) ∧ Fetched disk st' := by
  rw [spendInput] at h
  dsimp only at h
  split at h
  · cases h
  · next txindex txPrev hinput =>
    have hindex := hst _ _ _ hinput
    split at h
    · cases h
    · next pos hpos =>
      split at h
      · cases h
      · next hnull =>
        split at h
        · cases h
        · cases h
          have hentry : indexOver disk st.2 input.1.prevout.output.1 = some txindex.entry := by
            rw [indexOver, COutPoint.output, hindex, Option.map_some]
          have hmark : txindex.entry.marks[input.1.prevout.output.2]? = some pos := hpos
          have hfree : pos.isNull = true := by simpa using hnull
          refine ⟨?_, fun k e t hk => ?_⟩
          · rw [spendAt, Outputs.spend, hentry, Option.bind_some, hmark, Option.any_some,
              if_pos hfree, indexOver_insert]
            rfl
          · dsimp only at hk ⊢
            rw [Function.update_apply] at hk
            rw [lookupOver_insert, Function.update_apply]
            split at hk
            · next heq =>
              cases hk
              rw [if_pos heq]
            · next hne =>
              rw [if_neg hne]
              exact hst k e t hk

theorem spendInputs_spend :
    ∀ {inputs : List (CTxIn × Nat)} {st st' : MapPrevIndex × MapTxIndex}, Fetched disk st →
      inputs.foldlM (spendInput E nBestHeight fLockTime posThisTx tx) st = some st' →
      ((inputs.map Prod.fst).map fun txin => txin.prevout.output).foldlM (spendAt posThisTx)
        (indexOver disk st.2) = some (indexOver disk st'.2)
  | [], st, st', _, h => by
    cases h
    rfl
  | input :: inputs, st, st', hst, h => by
    obtain ⟨st₁, hstep, hrest⟩ := foldlM_cons_eq_some.1 h
    obtain ⟨hspend, hst₁⟩ := spendInput_spends hst hstep
    rw [List.map_cons, List.map_cons]
    exact foldlM_cons_eq_some.2 ⟨_, hspend, spendInputs_spend hst₁ hrest⟩

/-- A transaction as one of the index of outputs. -/
structure Mirrors (hash : Bytes → Uint256) (tx : CTransaction)
    (t : Outputs.Tx Uint256 CDiskTxPos CDiskTxPos) : Prop where
  id : t.id = tx.getHash hash
  inputs : t.inputs = tx.spends.map COutPoint.output
  outputs : t.outputs = tx.vout.length

theorem spends_of_mirrors (h : List.Forall₂ (Mirrors hash) vtx ts) :
    Outputs.spends ts = (vtx.flatMap CTransaction.spends).map COutPoint.output := by
  induction h with
  | nil => rfl
  | cons ht _ ih =>
    rw [Outputs.spends, List.flatMap_cons, List.flatMap_cons, List.map_append, ← ih, ht.inputs]
    rfl

theorem ids_of_mirrors (h : List.Forall₂ (Mirrors hash) vtx ts) :
    ts.map Outputs.Tx.id = vtx.map (CTransaction.getHash hash) := by
  induction h with
  | nil => rfl
  | cons ht _ ih => rw [List.map_cons, List.map_cons, ih, ht.id]

theorem exists_of_mirrors (h : List.Forall₂ (Mirrors hash) vtx ts)
    {t : Outputs.Tx Uint256 CDiskTxPos CDiskTxPos} (ht : t ∈ ts) : ∃ tx ∈ vtx, Mirrors hash tx t := by
  induction h with
  | nil => cases ht
  | @cons tx u vtx ts hu _ ih =>
    rcases List.mem_cons.1 ht with rfl | ht
    · exact ⟨tx, List.mem_cons_self, hu⟩
    · obtain ⟨tx', htx', hmirrors⟩ := ih ht
      exact ⟨tx', List.mem_cons_of_mem tx htx', hmirrors⟩

theorem earlier_of_mirrors (h : List.Forall₂ (Mirrors hash) vtx ts)
    (hearlier : Outputs.EarlierInputs ts) {before after : List CTransaction}
    (heq : vtx = before ++ tx :: after) {o : COutPoint} (ho : o ∈ tx.spends) :
    ∃ prev ∈ before, prev.getHash hash = o.hash ∧ o.n.toNat < prev.vout.length := by
  have h' := h.flip
  rw [heq] at h'
  have hbefore := List.forall₂_take_append _ _ _ h'
  obtain ⟨t, rest, ht, -, hrest⟩ :=
    List.forall₂_cons_right_iff.1 (List.forall₂_drop_append _ _ _ h')
  have hsplit : ts = ts.take before.length ++ t :: rest := by rw [← hrest, List.take_append_drop]
  have hout : o.output ∈ t.inputs := by
    rw [ht.inputs]
    exact List.mem_map_of_mem ho
  obtain ⟨u, hu, hid, hlt⟩ := hearlier _ _ _ hsplit o.output hout
  obtain ⟨i, hi, rfl⟩ := List.mem_iff_getElem.1 hu
  have hmirrors := hbefore.get hi (hbefore.length_eq ▸ hi)
  exact ⟨_, List.get_mem _ _, hmirrors.id.symm.trans hid, hmirrors.outputs ▸ hlt⟩

variable {E : ChainEnv} {c : ConnectCtx}

theorem connectSpending_spends (h : connectSpending E c posThisTx st tx = some st') :
    (tx.vin.map fun txin => txin.prevout.output).foldlM (spendAt posThisTx)
      (indexOver c.disk st.mapQueuedChanges) = some (indexOver c.disk st'.mapQueuedChanges) := by
  obtain ⟨inputs, hfetch, h⟩ := Option.bind_eq_some_iff.1 h
  dsimp only at h
  split at h
  · cases h
  · obtain ⟨⟨nClaim, nPurchases⟩, -, h⟩ := Option.bind_eq_some_iff.1 h
    obtain ⟨queued, hconnect, rfl⟩ := Option.map_eq_some_iff.1 h
    obtain ⟨nValueIn, -, hconnect⟩ := Option.bind_eq_some_iff.1 hconnect
    obtain ⟨st', hspend, hfees⟩ := Option.bind_eq_some_iff.1 hconnect
    split at hfees
    · cases hfees
      have hspent := spendInputs_spend (fetched_fetchBlockInputs hfetch) hspend
      rwa [List.zipIdx_map_fst] at hspent
    · cases hfees

/-- What a successful `connectTx` has done: nothing but the output for a coinbase, and the inputs otherwise. -/
theorem connectTx_cases (h : connectTx E c st tx = some st') :
    overwritesUnspent c (tx.getHash E.hash) = false ∧ ∃ nSigOps nTxPos st₁,
      st' = { st₁ with
        mapQueuedChanges := st₁.mapQueuedChanges.insert (tx.getHash E.hash)
          (.unspent ⟨c.mem.nFile, c.mem.nBlockPos, st.nTxPos⟩ tx.vout.length) } ∧
      (tx.isCoinBase = true ∧ st₁ = { st with
          nSigOps := nSigOps, nTxPos := nTxPos, nValueOut := st.nValueOut + tx.getValueOut } ∨
        tx.isCoinBase = false ∧ connectSpending E c ⟨c.mem.nFile, c.mem.nBlockPos, st.nTxPos⟩
          { st with nSigOps := nSigOps, nTxPos := nTxPos } tx = some st₁) := by
  rw [connectTx] at h
  dsimp only at h
  split at h
  · cases h
  · next hold =>
    split at h
    · cases h
    · obtain ⟨st₁, hinputs, rfl⟩ := Option.map_eq_some_iff.1 h
      refine ⟨Bool.eq_false_of_not_eq_true hold, ?_⟩
      split at hinputs
      · next hbase => exact ⟨_, _, st₁, rfl, .inl ⟨hbase, (Option.some.inj hinputs).symm⟩⟩
      · next hbase => exact ⟨_, _, st₁, rfl, .inr ⟨Bool.eq_false_of_not_eq_true hbase, hinputs⟩⟩

theorem connectTx_connects (h : connectTx E c st tx = some st') :
    ∃ t, Mirrors E.hash tx t ∧ t.mark.nFile = c.mem.nFile ∧
      connectOutputs (indexOver c.disk st.mapQueuedChanges) t =
        some (indexOver c.disk st'.mapQueuedChanges) := by
  obtain ⟨-, nSigOps, nTxPos, st₁, rfl, hinputs⟩ := connectTx_cases h
  set posThisTx : CDiskTxPos := ⟨c.mem.nFile, c.mem.nBlockPos, st.nTxPos⟩ with hpos
  refine ⟨⟨tx.getHash E.hash, posThisTx, posThisTx, tx.spends.map COutPoint.output,
    tx.vout.length⟩, ⟨rfl, rfl, rfl⟩, rfl, ?_⟩
  have hspent : (tx.spends.map COutPoint.output).foldlM (spendAt posThisTx)
      (indexOver c.disk st.mapQueuedChanges) = some (indexOver c.disk st₁.mapQueuedChanges) := by
    rw [CTransaction.spends]
    rcases hinputs with ⟨hbase, rfl⟩ | ⟨hbase, hinputs⟩
    · rw [if_pos hbase]
      rfl
    · rw [hbase, if_neg Bool.false_ne_true, List.map_map]
      exact (connectSpending_spends hinputs :)
  rw [connectOutputs, Outputs.connect, hspent, Option.map_some, Outputs.enter, indexOver_insert]
  rfl

theorem connectTxs_connect : ∀ {vtx : List CTransaction} {st st' : ConnectState},
    vtx.foldlM (connectTx E c) st = some st' →
      ∃ ts, List.Forall₂ (Mirrors E.hash) vtx ts ∧ (∀ t ∈ ts, t.mark.nFile = c.mem.nFile) ∧
        ts.foldlM connectOutputs (indexOver c.disk st.mapQueuedChanges) =
          some (indexOver c.disk st'.mapQueuedChanges)
  | [], st, st', h => by
    cases h
    exact ⟨[], .nil, fun _ ht => (nomatch ht), rfl⟩
  | tx :: vtx, st, st', h => by
    obtain ⟨st₁, hstep, hrest⟩ := foldlM_cons_eq_some.1 h
    obtain ⟨t, ht, hfile, hconnect⟩ := connectTx_connects hstep
    obtain ⟨ts, hts, hfiles, hconnects⟩ := connectTxs_connect hrest
    exact ⟨t :: ts, .cons ht hts, List.forall_mem_cons.2 ⟨hfile, hfiles⟩,
      foldlM_cons_eq_some.2 ⟨_, hconnect, hconnects⟩⟩

namespace Node

def txIndex (n : Node) : Uint256 → Option CTxIndex := Disk.txIndex n.db.txdb.view

def outputs (n : Node) : OutputIndex := Disk.outputs n.db.txdb.view

def withCache (n : Node) (mapCache : Lru.Cache Uint256 CDiskBlockIndex) : Node :=
  { n with db := { n.db with mapCache := mapCache } }

variable (n : Node)

theorem outputs_eq (h : Uint256) : n.outputs h = (n.txIndex h).map CTxIndex.entry := rfl

theorem view_put (k : DBKey) (v : Option k.Value) :
    (n.put k v).db.txdb.view = Function.update n.db.txdb.view k v :=
  KeyValue.Store.view_put _ k v

theorem txIndex_put_tx (h : Uint256) (v : Option CTxIndex) :
    (n.put (.tx h) v).txIndex = Function.update n.txIndex h v := by
  funext k
  refine (congrFun (view_put n (.tx h) v) (.tx k)).trans ?_
  by_cases hk : k = h
  · subst hk
    rw [Function.update_self]
    exact Function.update_self ..
  · rw [Function.update_of_ne hk]
    exact Function.update_of_ne (fun heq => hk (DBKey.tx.inj heq)) ..

theorem view_put_of_ne {k' : DBKey} (hk : k' ≠ k) (v : Option k.Value) :
    (n.put k v).db.txdb.view k' = n.db.txdb.view k' :=
  (congrFun (view_put n k v) k').trans (Function.update_of_ne hk ..)

theorem txIndex_put_of_ne (k : DBKey) (hk : ∀ h, k ≠ .tx h) (v : Option k.Value) :
    (n.put k v).txIndex = n.txIndex :=
  funext fun h => view_put_of_ne n (hk h).symm v

theorem view_foldl_put {α : Type} (key : α → DBKey) (val : (c : α) → Option (key c).Value) :
    ∀ (l : List α) (n : Node), (∀ c ∈ l, k ≠ key c) →
      (l.foldl (fun n c => n.put (key c) (val c)) n).db.txdb.view k = n.db.txdb.view k
  | [], _, _ => rfl
  | c :: l, n, hk => by
    obtain ⟨hc, hl⟩ := List.forall_mem_cons.1 hk
    rw [List.foldl_cons, view_foldl_put key val l _ hl, view_put_of_ne n hc]

theorem foldl_put_eq {α : Type} (key : α → DBKey) (val : (c : α) → Option (key c).Value) :
    ∀ (l : List α) (n : Node), ∃ txdb,
      l.foldl (fun n c => n.put (key c) (val c)) n = { n with db := { n.db with txdb := txdb } }
  | [], n => ⟨n.db.txdb, rfl⟩
  | c :: l, n => by
    obtain ⟨txdb, heq⟩ := foldl_put_eq key val l (n.put (key c) (val c))
    exact ⟨txdb, heq⟩

theorem applyExplore_eq (changes : List (Bytes × Option Bytes) × Map Int Nat) : ∃ txdb,
    n.applyExplore changes =
      { n with db := { n.db with txdb := txdb }, mapAddressBalances := changes.2 } := by
  obtain ⟨txdb, heq⟩ :=
    foldl_put_eq (fun c : Bytes × Option Bytes => .addr c.1) (fun c => c.2) changes.1 n
  refine ⟨txdb, ?_⟩
  rw [applyExplore, heq]

theorem view_applyExplore (hk : ∀ a, k ≠ .addr a) (changes : List (Bytes × Option Bytes) × Map Int Nat) :
    (n.applyExplore changes).db.txdb.view k = n.db.txdb.view k :=
  view_foldl_put (fun c : Bytes × Option Bytes => .addr c.1) (fun c => c.2) changes.1 n fun c _ => hk c.1

@[simp] theorem txIndex_withCache (mapCache : Lru.Cache Uint256 CDiskBlockIndex) :
    (n.withCache mapCache).txIndex = n.txIndex := rfl

@[simp] theorem txIndex_writeIndex (hash : Uint256) (r : CDiskBlockIndex) :
    (n.writeIndex hash r).txIndex = n.txIndex :=
  txIndex_put_of_ne n (.blockIndex hash) (fun _ => nofun) (some r)

@[simp] theorem txIndex_applyExplore (changes : List (Bytes × Option Bytes) × Map Int Nat) :
    (n.applyExplore changes).txIndex = n.txIndex :=
  funext fun h => view_applyExplore n (k := .tx h) (fun _ => nofun) changes

theorem txIndex_puts : ∀ (l : List (Uint256 × CTxIndex)) (n : Node),
    (l.foldl (fun n e => n.put (.tx e.1) (some e.2)) n).txIndex =
      l.foldl (fun (f : Uint256 → Option CTxIndex) e => Function.update f e.1 (some e.2)) n.txIndex
  | [], _ => rfl
  | e :: l, n => by
    rw [List.foldl_cons, txIndex_puts l, List.foldl_cons]
    exact congrArg (fun f => List.foldl _ f l) (txIndex_put_tx n e.1 (some e.2))

variable {n}

theorem withCache_of_reading {n₁ : Node} {hash : Uint256} {r : CDiskBlockIndex} {disk : Disk}
    (h : n.reading (n.db.readWith disk hash) = .ok (r, n₁)) : ∃ mapCache, n₁ = n.withCache mapCache := by
  rw [reading.eq_def] at h
  split at h
  · cases h
  · next hread =>
    cases h
    obtain ⟨-, rfl⟩ := BlockDB.readWith_eq_some hread
    exact ⟨_, rfl⟩

end Node

theorem txIndex_exploreConnect (E : ChainEnv) (b : CBlock) (n : Node) :
    (exploreConnect E b n).txIndex = n.txIndex := by
  rw [exploreConnect]
  split
  · rfl
  · exact Node.txIndex_applyExplore n _

theorem txIndex_writeConnected (E : ChainEnv) (b : CBlock) (m p : CBlockMemIndex)
    (r rPrev : CDiskBlockIndex) (mapQueuedChanges : MapTxIndex) (n : Node) :
    (writeConnected E b m p r rPrev mapQueuedChanges n).txIndex =
      lookupOver n.db.txdb.view mapQueuedChanges := by
  funext h
  rw [writeConnected, txIndex_exploreConnect, Node.txIndex_writeIndex, Node.txIndex_puts,
    Node.txIndex_writeIndex, Tally.foldl_update_toList]
  rfl

/-- What a successful `ConnectBlock` has read and computed. -/
structure Connection (E : ChainEnv) (m p : CBlockMemIndex) (rest : MemChain) (b : CBlock)
    (r : QPRegistry) (n n' : Node) (r' : QPRegistry) where
  mapCache : Lru.Cache Uint256 CDiskBlockIndex
  diskIndex : CDiskBlockIndex
  diskIndexPrev : CDiskBlockIndex
  diskIndexChecked : CDiskBlockIndex
  vDeets : List QPTxDetails
  st : ConnectState
  checked : ((n.withCache mapCache).checkCtx E).checkBlock true true true true
    n.best.pindexBest.toCBlockIndex diskIndexChecked.toCBlockIndex r b = (r', some vDeets)
  connected : connectTxs E
    ⟨n.withCache mapCache, r', m, p :: rest, diskIndex, diskIndexPrev.nMoneySupply⟩ b.vtx = some st
  written : n' = writeConnected E b m p
    (connectedIndex E
      ⟨n.withCache mapCache, r', m, p :: rest, diskIndex, diskIndexPrev.nMoneySupply⟩ vDeets st)
    diskIndexPrev st.mapQueuedChanges (n.withCache mapCache)

theorem exists_connection {pmemIndex : MemChain} (h : connectBlock E pmemIndex b r n = .ok (n', r')) :
    ∃ m p rest, pmemIndex = m :: p :: rest ∧ Nonempty (Connection E m p rest b r n n' r') := by
  unfold connectBlock at h
  split at h
  · next m p rest =>
    refine ⟨m, p, rest, rfl, ?_⟩
    obtain ⟨⟨diskIndex, n₁⟩, hread, h⟩ := Fallible.bind_eq_ok_iff.1 h
    obtain ⟨⟨diskIndexPrev, n₂⟩, hprev, h⟩ := Fallible.bind_eq_ok_iff.1 h
    obtain ⟨⟨diskIndexChecked, n₃⟩, hchecked, h⟩ := Fallible.bind_eq_ok_iff.1 h
    obtain ⟨_, rfl⟩ := Node.withCache_of_reading hread
    obtain ⟨_, rfl⟩ := Node.withCache_of_reading hprev
    obtain ⟨mapCache, rfl⟩ := Node.withCache_of_reading hchecked
    dsimp only at h
    split at h
    · cases h
    · next vDeets hcheck =>
      split at h
      · cases h
      · next st hst =>
        cases h
        exact ⟨⟨mapCache, diskIndex, diskIndexPrev, diskIndexChecked, vDeets, st, hcheck, hst, rfl⟩⟩
  · cases h

theorem Connection.accepted (con : Connection E m p rest b r n n' r') :
    (((n.withCache con.mapCache).checkCtx E).checkBlock true true true true
      n.best.pindexBest.toCBlockIndex con.diskIndexChecked.toCBlockIndex r b).2.isSome := by
  rw [con.checked]
  rfl

theorem Connection.nodup_ids (con : Connection E m p rest b r n n' r') : (b.ids E.hash).Nodup :=
  (CheckBlockCtx.of_checkBlock con.accepted).2.1

theorem Connection.txIndex_eq (con : Connection E m p rest b r n n' r') :
    n'.txIndex = lookupOver n.db.txdb.view con.st.mapQueuedChanges :=
  (congrArg Node.txIndex con.written).trans (txIndex_writeConnected ..)

theorem Connection.connects (con : Connection E m p rest b r n n' r') :
    ∃ ts, List.Forall₂ (Mirrors E.hash) b.vtx ts ∧ (∀ t ∈ ts, t.mark.nFile = m.nFile) ∧
      ts.foldlM connectOutputs n.outputs = some n'.outputs := by
  obtain ⟨ts, hmirrors, hfiles, hconnects⟩ := connectTxs_connect con.connected
  refine ⟨ts, hmirrors, hfiles, ?_⟩
  have hwritten : n'.outputs = indexOver n.db.txdb.view con.st.mapQueuedChanges := by
    funext h
    rw [Node.outputs_eq, con.txIndex_eq]
    rfl
  rw [indexOver_empty] at hconnects
  rw [hwritten]
  exact hconnects

def opensBlockFile (nFile : UInt32) : Bool := !(decide (nFile < 1) || nFile == 0xffffffff)

/-- Blocks connected one after the other to an empty transaction index. Between two blocks a node may do
anything that leaves the index as it is. -/
inductive Connected (hash : Bytes → Uint256) : Node → List CBlock → Prop
  | start {n : Node} (hempty : ∀ h, n.txIndex h = none) : Connected hash n []
  | connect {n n' : Node} {bs : List CBlock} {E : ChainEnv} {m : CBlockMemIndex} {pprev : MemChain}
      {b : CBlock} {r r' : QPRegistry} (hrun : Connected hash n bs) (hhash : E.hash = hash)
      (hfile : opensBlockFile m.nFile = true)
      (hconnect : connectBlock E (m :: pprev) b r n = .ok (n', r')) : Connected hash n' (bs ++ [b])
  | keep {n n' : Node} {bs : List CBlock} (hrun : Connected hash n bs)
      (hsame : n'.txIndex = n.txIndex) : Connected hash n' bs

theorem Connected.follows (h : Connected hash n bs) (hids : (bs.flatMap (CBlock.ids hash)).Nodup) :
    ∃ ts, List.Forall₂ (Mirrors hash) (bs.flatMap CBlock.vtx) ts ∧
      Outputs.Follows CDiskTxPos.isNull ts (Outputs.spends ts) n.outputs ∧ Outputs.EarlierInputs ts := by
  induction h with
  | start hempty =>
    refine ⟨[], .nil, ⟨fun o ho => ?_, fun _ ho => (nomatch ho), .nil⟩, fun before _ _ heq => ?_⟩
    · rw [Outputs.markOf, Node.outputs_eq, hempty] at ho
      cases ho
    · cases before <;> cases heq
  | @connect n n' bs E m pprev b r r' hrun hhash hfile hconnect ih =>
    subst hhash
    rw [List.flatMap_append, List.flatMap_singleton] at hids
    obtain ⟨ts, hmirrors, hfollows, hearlier⟩ := ih (List.nodup_append'.1 hids).1
    obtain ⟨m', p, rest, heq, ⟨con⟩⟩ := exists_connection hconnect
    cases heq
    obtain ⟨us, hmirrors', hfiles, hconnects⟩ := con.connects
    have hmarks : ∀ u ∈ us, u.mark.isNull = false := by
      intro u hu
      rw [CDiskTxPos.isNull, hfiles u hu]
      rw [opensBlockFile, Bool.not_eq_true', Bool.or_eq_false_iff] at hfile
      exact hfile.2
    have hall : List.Forall₂ (Mirrors E.hash) ((bs ++ [b]).flatMap CBlock.vtx) (ts ++ us) := by
      rw [List.flatMap_append, List.flatMap_singleton]
      exact List.rel_append hmirrors hmirrors'
    have hids' : ((ts ++ us).map Outputs.Tx.id).Nodup := by
      rw [List.map_append, ids_of_mirrors hmirrors, ids_of_mirrors hmirrors', List.map_flatMap]
      exact hids
    exact ⟨ts ++ us, hall, hfollows.connectAll hearlier hmarks hids' hconnects⟩
  | @keep n n' bs hrun hsame ih =>
    have houtputs : n'.outputs = n.outputs := by
      funext h
      rw [Node.outputs_eq, Node.outputs_eq, hsame]
    rw [houtputs]
    exact ih hids

theorem Connected.checked (h : Connected hash n bs) :
    ∀ tx ∈ bs.flatMap CBlock.vtx, tx.Sized ∧ tx.vin ≠ [] := by
  induction h with
  | start => simp
  | @connect n n' bs E m pprev b r r' hrun hhash hfile hconnect ih =>
    obtain ⟨m', p, rest, heq, ⟨con⟩⟩ := exists_connection hconnect
    intro tx htx
    rw [List.flatMap_append, List.flatMap_singleton] at htx
    rcases List.mem_append.1 htx with hold | hnew
    · exact ih tx hold
    · exact (CheckBlockCtx.of_checkBlock con.accepted).2.2 tx hnew
  | keep hrun hsame ih => exact ih

/-- Over blocks connected to an empty index without a repeated id, all inputs are distinct and refer to
outputs of earlier transactions. -/
theorem Connected.spends_once {hash : Bytes → Uint256} {n : Node} (h : Connected hash n bs)
    (hids : (bs.flatMap (CBlock.ids hash)).Nodup) :
    ((bs.flatMap CBlock.vtx).flatMap CTransaction.spends).Nodup ∧
      ∀ before tx after, bs.flatMap CBlock.vtx = before ++ tx :: after → ∀ o ∈ tx.spends,
        ∃ prev ∈ before, prev.getHash hash = o.hash ∧ o.n.toNat < prev.vout.length := by
  obtain ⟨ts, hmirrors, hfollows, hearlier⟩ := h.follows hids
  refine ⟨?_, fun before tx after heq o ho => earlier_of_mirrors hmirrors hearlier heq ho⟩
  have hnodup := hfollows.distinct
  rw [spends_of_mirrors hmirrors] at hnodup
  exact hnodup.of_map _

def payScript : CScript := opDup :: opHash160 :: 20 :: (List.replicate 20 9 ++ [opEqualVerify, opCheckSig])

def mineTx (nExtra : UInt8) : CTransaction where
  nVersion := 4
  nTime := 0
  vin := [⟨⟨0, 0xffffffff⟩, [1, nExtra], 0xffffffff⟩]
  vout := [⟨5000000, payScript⟩]
  nLockTime := 0

def payTx (hash : Uint256) : CTransaction where
  nVersion := 4
  nTime := 0
  vin := [⟨⟨hash, 0⟩, [], 0xffffffff⟩]
  vout := [⟨5000000, payScript⟩]
  nLockTime := 0

def minedBlock (nTime : UInt32) (vtx : List CTransaction) : CBlock where
  nVersion := 7
  hashPrevBlock := 0
  hashMerkleRoot := CBlock.buildMerkleTree rollingHash ⟨7, 0, 0, 0, 0, 0, 0, 0, vtx, []⟩
  nTime := nTime
  nBits := 0
  nNonce := 0
  nHeight := 0
  nStakerID := 0
  vtx := vtx
  vchBlockSig := []

def firstMined : CBlock := minedBlock 10 [mineTx 1]

def secondMined : CBlock :=
  let pay := payTx ((mineTx 1).getHash rollingHash)
  minedBlock 20 [mineTx 2, pay, payTx (pay.getHash rollingHash)]

def minedEnv : ChainEnv where
  env := QPRegistry.mainEnv
  now := 100
  hash := rollingHash
  hash9 := rollingHash
  hashOfNftHashes := 0
  checkProofOfWork _ _ := true
  verify _ _ _ := true
  checkMinerSignature _ := true
  legacySigOpCount _ := 0
  p2shSigOpCount _ _ := 0
  verifySignature _ _ _ _ := true
  nBlocksEstimate := 0
  minFee _ := 0
  checkFeework _ _ := true
  stakeRewardIsValid _ _ _ _ := true
  readBlock _ _ := none
  readTx pos := if pos.nBlockPos == 1000 then some (mineTx 1) else some (payTx 0)
  isIndexed _ := false
  explore := none
  acceptToMemoryPool _ pool _ := pool

def minedRecord (nHeight : Int) : CDiskBlockIndex where
  hashBlock := 0
  nHeight := nHeight
  nTime := 0
  nStakerID := 0
  nMoneySupply := 0
  vDeets := []
  hashNext := 0
  nFile := 1
  nBlockPos := 0
  nVersion := 7
  nFlags := 0
  nMint := 0
  bnChainTrust := 0

def minedNode : Node where
  db :=
    { txdb :=
        { disk := fun
            | .blockIndex h => if h < 3 then some (minedRecord h.toNat) else none
            | _ => none
          activeBatch := some [] }
      mapCache := [] }
  mapAddressBalances := ∅
  pnext _ := none
  mapBlockLookup _ := none
  best := ⟨[], minedRecord 0, 0, 0, 0⟩
  bnBestInvalidTrust := 0
  snapshots := ∅
  mempool := ∅

def minedIndex (i : Nat) : CBlockMemIndex := ⟨BitVec.ofNat 256 i, 1, UInt32.ofNat (1000 * i)⟩

def connectMined (i : Nat) (b : CBlock) (st : Node × QPRegistry) : Run (Node × QPRegistry) :=
  connectBlock minedEnv [minedIndex i, minedIndex 0] b st.2 st.1

theorem connectMined_ok : ∃ st st',
    connectMined 1 firstMined (minedNode, .empty QPRegistry.mainEnv) = .ok st ∧
      connectMined 2 secondMined st = .ok st' ∧
      ∀ id ∈ secondMined.ids rollingHash, st.1.txIndex id = none := by
  have hrun : (connectMined 1 firstMined (minedNode, .empty QPRegistry.mainEnv)).toOption.any (fun st =>
      (connectMined 2 secondMined st).toOption.isSome &&
        (secondMined.ids rollingHash).all fun id => (st.1.txIndex id).isNone) = true := by
    decide +kernel
  obtain ⟨st, hfirst, hrest⟩ := (Option.any_eq_true ..).1 hrun
  obtain ⟨hsecond, hnew⟩ := Bool.and_eq_true_iff.1 hrest
  obtain ⟨st', hsecond⟩ := Option.isSome_iff_exists.1 hsecond
  refine ⟨st, st', Fallible.eq_ok_of_toOption hfirst, Fallible.eq_ok_of_toOption hsecond, ?_⟩
  simpa using hnew

theorem spends_once_mined : ∃ n, Connected rollingHash n [firstMined, secondMined] ∧
    (([firstMined, secondMined].flatMap CBlock.vtx).flatMap CTransaction.spends).Nodup := by
  obtain ⟨st, st', hfirst, hsecond, -⟩ := connectMined_ok
  have hrun : Connected rollingHash st'.1 [firstMined, secondMined] :=
    .connect (.connect (.start fun _ => rfl) rfl (by decide) hfirst) rfl (by decide) hsecond
  exact ⟨st'.1, hrun, (hrun.spends_once (by decide +kernel)).1⟩

end Stealth

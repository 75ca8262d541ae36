import Stealth.Chain.Spends

/-! `DisconnectBlock` after `ConnectBlock`: the transactions in reverse, and their entries erased at last. -/

namespace Stealth

open OptionFold

abbrev releaseOutput (ix : OutputIndex) (o : Uint256 × Nat) : Option OutputIndex :=
  Outputs.release CDiskTxPos.null ix o

theorem outputs_put (txdb : CTxDB) (h : Uint256) (e : CTxIndex) :
    Disk.outputs (txdb.put (.tx h) (some e)).view =
      Function.update (Disk.outputs txdb.view) h (some e.entry) := by
  funext k
  rw [Disk.outputs, KeyValue.Store.view_put, Function.update_apply, Disk.txIndex]
  split
  · next hk =>
    subst hk
    rw [Function.update_self]
    rfl
  · next hk =>
    rw [Function.update_of_ne fun heq => hk (DBKey.tx.inj heq)]
    rfl

/-- The loop of `DisconnectInputs` does not stop early where all inputs are indexed. -/
theorem disconnectTxIns_releases : ∀ {vin : List CTxIn} {txdb : CTxDB} {ix : OutputIndex},
    (vin.map fun txin => txin.prevout.output).foldlM releaseOutput (Disk.outputs txdb.view) = some ix →
      ∃ txdb', disconnectTxIns vin txdb = some txdb' ∧ Disk.outputs txdb'.view = ix
  | [], txdb, ix, h => by
    cases h
    exact ⟨txdb, rfl, rfl⟩
  | txin :: vin, txdb, ix, h => by
    rw [List.map_cons] at h
    obtain ⟨ix₁, hstep, hrest⟩ := foldlM_cons_eq_some.1 h
    obtain ⟨entry, hentry, hstep⟩ := Option.bind_eq_some_iff.1 hstep
    obtain ⟨txindex, hindex, rfl⟩ := Option.map_eq_some_iff.1 hentry
    split at hstep
    · next hlt =>
      cases hstep
      have hput : Outputs.setMark (Disk.outputs txdb.view) txin.prevout.output txindex.entry
          CDiskTxPos.null = Disk.outputs (txdb.put (.tx txin.prevout.hash)
            (some { txindex with
              vSpent := txindex.vSpent.set txin.prevout.n.toNat CDiskTxPos.null })).view :=
        (outputs_put txdb txin.prevout.hash
          { txindex with vSpent := txindex.vSpent.set txin.prevout.n.toNat CDiskTxPos.null }).symm
      rw [hput] at hrest
      obtain ⟨txdb', hrun, houtputs⟩ := disconnectTxIns_releases hrest
      refine ⟨txdb', ?_, houtputs⟩
      rw [disconnectTxIns, show Disk.txIndex txdb.view txin.prevout.hash = some txindex from hindex]
      exact (if_neg (Nat.not_le.2 hlt)).trans hrun
    · cases hstep

variable {n n' : Node} {rest : MemChain} {hash : Bytes → Uint256} {m p : CBlockMemIndex} {b : CBlock}
  {r r' : QPRegistry} {E : ChainEnv}

theorem disconnectInputs_releases {tx : CTransaction} {t : Outputs.Tx Uint256 CDiskTxPos CDiskTxPos}
    (ht : Mirrors hash tx t) {txdb : CTxDB} {ix : OutputIndex}
    (h : t.inputs.foldlM releaseOutput (Disk.outputs txdb.view) = some ix) :
    ∃ txdb', disconnectInputs txdb tx = some txdb' ∧ Disk.outputs txdb'.view = ix := by
  rw [ht.inputs, CTransaction.spends] at h
  rw [disconnectInputs]
  split at h
  · next hbase =>
    cases h
    exact ⟨txdb, if_pos hbase, rfl⟩
  · next hbase =>
    rw [List.map_map] at h
    rw [if_neg hbase]
    exact disconnectTxIns_releases h

theorem foldlM_disconnectInputs_releases {vtx : List CTransaction}
    {ts : List (Outputs.Tx Uint256 CDiskTxPos CDiskTxPos)} (hts : List.Forall₂ (Mirrors hash) vtx ts) :
    ∀ {txdb : CTxDB} {ix : OutputIndex},
      (ts.flatMap Outputs.Tx.inputs).foldlM releaseOutput (Disk.outputs txdb.view) = some ix →
      ∃ txdb', vtx.foldlM disconnectInputs txdb = some txdb' ∧ Disk.outputs txdb'.view = ix := by
  induction hts with
  | nil =>
    intro txdb ix h
    cases h
    exact ⟨txdb, rfl, rfl⟩
  | cons ht _ ih =>
    intro txdb ix h
    rw [List.flatMap_cons, List.foldlM_append] at h
    obtain ⟨ix₁, hinputs, hrest⟩ := Option.bind_eq_some_iff.1 h
    obtain ⟨txdb₁, hstep, rfl⟩ := disconnectInputs_releases ht hinputs
    obtain ⟨txdb', hrun, houtputs⟩ := ih hrest
    exact ⟨txdb', foldlM_cons_eq_some.2 ⟨txdb₁, hstep, hrun⟩, houtputs⟩

theorem txIndex_exploreDisconnect (E : ChainEnv) (b : CBlock) (n : Node) :
    (exploreDisconnect E b n).txIndex = n.txIndex := by
  rw [exploreDisconnect]
  split
  · rfl
  · exact Node.txIndex_applyExplore n _

theorem Node.txIndex_writeIndexLocal (n : Node) (hash : Uint256) (r : CDiskBlockIndex) :
    (n.writeIndexLocal hash r).txIndex = n.txIndex := by
  funext h
  exact @KeyValue.Store.view_putThrough_of_ne _ _ _ n.db.txdb (.blockIndex hash) (.tx h) nofun (some r)

/-- The record of the previous block is in the cache, so it is found whatever the store holds. -/
theorem clearNext_of_find (h : (Lru.find n.db.mapCache p.hashBlock).isSome) :
    ∃ n', clearNext (p :: rest) n = .ok n' ∧ n'.txIndex = n.txIndex := by
  obtain ⟨r, hr⟩ := Option.isSome_iff_exists.1 h
  have hread : n.readIndexLocal p.hashBlock =
      .ok (r, n.withCache (Lru.use MAX_CACHE_SIZE n.db.mapCache p.hashBlock r)) := by
    rw [Node.readIndexLocal, BlockDB.readDiskBlockIndexLocal, BlockDB.readWith, BlockDB.lookup,
      Lru.through, hr, Option.some_or, Option.map_some]
    rfl
  refine ⟨_, by rw [clearNext, hread]; rfl, ?_⟩
  rw [Node.txIndex_writeIndexLocal, Node.txIndex_withCache]

theorem mapCache_exploreConnect (E : ChainEnv) (b : CBlock) (n : Node) :
    (exploreConnect E b n).db.mapCache = n.db.mapCache := by
  rw [exploreConnect]
  split
  · rfl
  · next api _ =>
    obtain ⟨txdb, heq⟩ := n.applyExplore_eq (api.connect n.db.txdb.view n.mapAddressBalances b)
    rw [heq]

theorem find_writeConnected (E : ChainEnv) (b : CBlock) (m p : CBlockMemIndex)
    (r rPrev : CDiskBlockIndex) (mapQueuedChanges : MapTxIndex) (n : Node) :
    Lru.find (writeConnected E b m p r rPrev mapQueuedChanges n).db.mapCache p.hashBlock =
      some (rPrev.setNext m.hashBlock) := by
  rw [writeConnected, mapCache_exploreConnect]
  exact Lru.find_use_self ..

theorem outputs_eraseAll : ∀ (ids : List Uint256) (n : Node),
    (ids.foldl (fun n id => n.put (.tx id) none) n).outputs = ids.foldl Outputs.remove n.outputs
  | [], _ => rfl
  | id :: ids, n => by
    rw [List.foldl_cons, outputs_eraseAll ids, List.foldl_cons]
    refine congrArg (fun ix => ids.foldl Outputs.remove ix) (funext fun h => ?_)
    have hput := congrFun (Node.txIndex_put_tx n id none) h
    rw [Node.outputs_eq, Outputs.remove, Function.update_apply]
    rw [Function.update_apply] at hput
    refine (congrArg (Option.map CTxIndex.entry) hput).trans ?_
    split <;> rfl

def CDiskTxPos.spentAt (pos : CDiskTxPos) : Option CDiskTxPos := if pos.isNull then none else some pos

def CTxIndex.markers (txindex : CTxIndex) : CDiskTxPos × List (Option CDiskTxPos) :=
  (txindex.pos, txindex.vSpent.map CDiskTxPos.spentAt)

theorem CTxIndex.fields_injective : Function.Injective fun e : CTxIndex => (e.pos, e.vSpent) := by
  intro e e' h
  obtain ⟨hpos, hspent⟩ := Prod.mk.inj h
  cases e
  cases e'
  cases hpos
  cases hspent
  rfl

/-- Every marker of an unspent output is the one that `SetNull` gives. -/
def Node.NullsAreSet (n : Node) : Prop :=
  ∀ h txindex, n.txIndex h = some txindex → ∀ pos ∈ txindex.vSpent, pos.isNull = true → pos = .null

/-- Disconnecting a block that was just connected succeeds, and agrees with the index before. -/
theorem Connection.disconnect (con : Connection E m p rest b r n n' r')
    (hnew : ∀ id ∈ b.ids E.hash, n.txIndex id = none) :
    ∃ n'', disconnectBlock E (p :: rest) b n' = .ok n'' ∧
      Outputs.AgreeExcept CDiskTxPos.isNull CDiskTxPos.null (fun _ => False) n.outputs n''.outputs := by
  obtain ⟨ts, hmirrors, -, hconnects⟩ := con.connects
  have hids : ts.map Outputs.Tx.id = b.ids E.hash := ids_of_mirrors hmirrors
  have hfresh : ∀ t ∈ ts, n.outputs t.id = none := by
    intro t ht
    rw [Node.outputs_eq, hnew t.id (hids ▸ List.mem_map_of_mem ht), Option.map_none]
  obtain ⟨ix, hrelease, hagree⟩ := Outputs.disconnect_connect hfresh (hids ▸ con.nodup_ids) hconnects
  have hreverse : List.Forall₂ (Mirrors E.hash) b.vtx.reverse ts.reverse :=
    List.rel_reverse hmirrors
  obtain ⟨txdb, hrun, houtputs⟩ := foldlM_disconnectInputs_releases hreverse hrelease
  have hcached : (Lru.find n'.db.mapCache p.hashBlock).isSome := by
    rw [congrArg (fun n => Lru.find n.db.mapCache p.hashBlock) con.written, find_writeConnected]
    rfl
  obtain ⟨n₁, hclear, hindex⟩ :=
    @clearNext_of_find { n' with db := { n'.db with txdb := txdb } } rest p hcached
  refine ⟨(b.ids E.hash).foldl (fun n id => n.put (.tx id) none) (exploreDisconnect E b n₁), ?_, ?_⟩
  · rw [disconnectBlock, disconnectTxs, hrun]
    exact congrArg (· >>= _) hclear
  · have hn₁ : (exploreDisconnect E b n₁).outputs = ix := by
      rw [← houtputs]
      funext h
      rw [Node.outputs_eq, txIndex_exploreDisconnect, hindex]
      rfl
    rw [outputs_eraseAll, hn₁, ← hids]
    exact hagree

/-- Disconnecting a block that was just connected, if its transactions were not indexed before: the index
has the same transactions with the same markers. If the markers of unspent outputs before are those that
`SetNull` gives, it is the same index. -/
theorem disconnectBlock_connectBlock {pprev : MemChain}
    (h : connectBlock E (m :: pprev) b r n = .ok (n', r'))
    (hnew : ∀ id ∈ b.ids E.hash, n.txIndex id = none) : ∃ n'', disconnectBlock E pprev b n' = .ok n'' ∧
      (∀ h, (n''.txIndex h).map CTxIndex.markers = (n.txIndex h).map CTxIndex.markers) ∧
      (n.NullsAreSet → n''.txIndex = n.txIndex) := by
  obtain ⟨m', p, rest, heq, ⟨con⟩⟩ := exists_connection h
  cases heq
  obtain ⟨n'', hrun, hagree⟩ := con.disconnect hnew
  refine ⟨n'', hrun, fun h => ?_, fun hnulls => funext fun h => ?_⟩
  · have hmarks := hagree.map_marks CDiskTxPos.spentAt (fun o q _ hq => ?_) h
    · rw [Node.outputs_eq, Node.outputs_eq, Option.map_map, Option.map_map] at hmarks
      exact hmarks
    · rw [CDiskTxPos.spentAt, if_pos hq]
      rfl
  · have hmarks := hagree.map_marks id (fun o q hq hnull => ?_) h
    · simp only [Node.outputs_eq, Option.map_map, List.map_id] at hmarks
      exact Option.map_injective CTxIndex.fields_injective hmarks
    · obtain ⟨entry, hentry, hget⟩ := Option.bind_eq_some_iff.1 hq
      obtain ⟨txindex, hindex, rfl⟩ := Option.map_eq_some_iff.1 hentry
      exact hnulls _ txindex hindex q (List.mem_of_getElem? hget) hnull

theorem disconnectBlock_connectBlock_mined : ∃ st st' n'', connectMined 2 secondMined st = .ok st' ∧
    disconnectBlock minedEnv [minedIndex 0] secondMined st'.1 = .ok n'' ∧
    ∀ h, (n''.txIndex h).map CTxIndex.markers = (st.1.txIndex h).map CTxIndex.markers := by
  obtain ⟨st, st', -, hsecond, hnew⟩ := connectMined_ok
  obtain ⟨n'', hrun, hmarkers, -⟩ := disconnectBlock_connectBlock hsecond hnew
  exact ⟨st, st', n'', hsecond, hrun, hmarkers⟩

end Stealth

import Mathlib.Data.List.Chain
import Stealth.Chain.Failure

/-!
`SetBestChain` when a block of the new branch does not connect. `DisconnectBlock` writes the record of the
previous block outside the batch, and nothing restores it.
-/

namespace Stealth

open Fallible

variable {n : Node} {c i pfork : MemChain} {b : CBlock} {disk : Disk} {bnBestTrust : Int}
  {Q : Node → Prop} {r : QPRegistry}

def trustOf (disk : Disk) (m : CBlockMemIndex) : Option Int :=
  (disk.blockIndex m.hashBlock).map CDiskBlockIndex.bnChainTrust

def heightOf (disk : Disk) (m : CBlockMemIndex) : Option Int :=
  (disk.blockIndex m.hashBlock).map fun r => r.nHeight

/-- Trust and height grow from block to block. -/
structure Rising (disk : Disk) (c : MemChain) : Prop where
  trust : c.Pairwise fun m p => ∃ t t', trustOf disk m = some t ∧ trustOf disk p = some t' ∧ t' < t
  height : c.IsChain fun m p => ∃ h, heightOf disk p = some h ∧ heightOf disk m = some (h + 1)

/-- A node between two calls, and a block that it may make its best one. -/
structure Consistent (n : Node) (pmemIndexNew : MemChain) (b : CBlock) : Prop where
  noBatch : n.db.txdb.activeBatch = none
  coherent : Lru.Coherent n.db.mapCache (Disk.blockIndex n.db.txdb.disk)
  /-- The pointers to the best block are about one block. -/
  hashBest : ∀ m rest, n.best.pmemIndexBest = m :: rest → n.best.hashBestChain = m.hashBlock
  trustBest : ∀ m rest, n.best.pmemIndexBest = m :: rest →
    trustOf n.db.txdb.disk m = some n.best.pindexBest.bnChainTrust
  /-- The pointer is the one of the block. -/
  hashPrev : ∃ m p rest, pmemIndexNew = m :: p :: rest ∧ p.hashBlock = b.hashPrevBlock
  /-- A hash has one block with its ancestors. -/
  tree : ∀ {c c' m m'}, m :: c <:+ n.best.pmemIndexBest → m' :: c' <:+ pmemIndexNew →
    m.hashBlock = m'.hashBlock → m :: c = m' :: c'
  risingBest : Rising n.db.txdb.disk n.best.pmemIndexBest
  risingNew : Rising n.db.txdb.disk pmemIndexNew
  /-- The records of the best chain have their next blocks. -/
  next : n.best.pmemIndexBest.IsChain fun m p => m.hashBlock ≠ 0 ∧
    ∃ r, Disk.blockIndex n.db.txdb.disk p.hashBlock = some r ∧ r.hashNext = m.hashBlock

theorem Consistent.onlyRead (h : Consistent n c b) : OnlyRead n n where
  disk := rfl
  batch := rfl
  noWrites := by rw [h.noBatch]; rfl
  coherent := h.coherent
  mapAddressBalances := rfl
  pnext := rfl
  mapBlockLookup := rfl
  best := rfl

/-- The block of a branch where `queueSecondary` stops: the previous one has no more trust than the best
block, and if later blocks are queued it has more itself. -/
structure Intermediate (disk : Disk) (bnBestTrust : Int) (c i : MemChain) : Prop where
  suffix : i <:+ c
  nonempty : c ≠ [] → i ≠ []
  stop : ∀ m p rest, i = m :: p :: rest → ∃ t, trustOf disk p = some t ∧ t ≤ bnBestTrust
  more : i ≠ c → ∀ m rest, i = m :: rest → ∃ t, trustOf disk m = some t ∧ bnBestTrust < t

theorem Intermediate.of_length (h : c.length < 2) : Intermediate disk bnBestTrust c c where
  suffix := List.suffix_refl c
  nonempty := id
  stop := by
    rintro m p rest rfl
    simp only [List.length_cons] at h
    omega
  more hne := absurd rfl hne

theorem OnlyRead.spec_queueSecondary {n₀ : Node} {P : Node → Prop} :
    ∀ {c : MemChain} {vSecondary : List MemChain} {n : Node}, OnlyRead n₀ n →
      Spec (fun x => OnlyRead n₀ x.2.2 ∧ Intermediate n₀.db.txdb.disk bnBestTrust c x.2.1)
        (OnNotConnected P) (queueSecondary bnBestTrust c vSecondary n)
  | [], vSecondary, n, h => by
    rw [queueSecondary.eq_def]
    exact ⟨h, .of_length (by decide)⟩
  | [m], vSecondary, n, h => by
    rw [queueSecondary.eq_def]
    exact ⟨h, .of_length (Nat.lt_succ_self 1)⟩
  | m :: p :: rest, vSecondary, n, h => by
    rw [queueSecondary]
    refine (h.spec_readIndex p.hashBlock).bind fun x hx => ?_
    have htrust : trustOf n₀.db.txdb.disk p = some x.1.bnChainTrust := by
      rw [trustOf, hx.1, Option.map_some]
    dsimp only
    split
    · next hmore =>
      refine (spec_queueSecondary hx.2).mono (fun y hy => ?_) fun _ _ hf => hf
      obtain ⟨hread, hi⟩ := hy
      refine ⟨hread, hi.suffix.trans (List.suffix_cons m _),
        fun _ => hi.nonempty (List.cons_ne_nil p rest), hi.stop, fun _ m' rest' heq => ?_⟩
      by_cases hfirst : y.2.1 = p :: rest
      · rw [hfirst] at heq
        cases heq
        exact ⟨_, htrust, hmore⟩
      · exact hi.more hfirst m' rest' heq
    · next hless =>
      refine ⟨hx.2, List.suffix_refl _, id, fun m' p' rest' heq => ?_, fun hne => absurd rfl hne⟩
      cases heq
      exact ⟨_, htrust, Int.not_lt.1 hless⟩

theorem Intermediate.of_suffix {below : MemChain}
    {f : CBlockMemIndex} (hi : Intermediate disk bnBestTrust c i) (hc : Rising disk c)
    (hbest : f :: below <:+ c) (hf : trustOf disk f = some bnBestTrust) :
    i = f :: below ∨ ∃ m, i = m :: f :: below := by
  have hcne : c ≠ [] := by
    rintro rfl
    cases List.suffix_nil.1 hbest
  rcases List.suffix_or_suffix_of_suffix hi.suffix hbest with hle | ⟨l, rfl⟩
  · rcases List.suffix_cons_iff.1 hle with rfl | hlt
    · exact .inl rfl
    · exfalso
      obtain ⟨m, rest, rfl⟩ := List.exists_cons_of_ne_nil (hi.nonempty hcne)
      have hne : m :: rest ≠ c := by
        rintro rfl
        have hlen := hbest.length_le
        have hlen' := hlt.length_le
        simp only [List.length_cons] at hlen hlen'
        omega
      obtain ⟨t, ht, hmore⟩ := hi.more hne m rest rfl
      obtain ⟨t₁, t₂, ht₁, ht₂, hlt'⟩ :=
        (List.pairwise_cons.1 (hc.trust.sublist hbest.sublist)).1 m (hlt.subset List.mem_cons_self)
      rw [hf] at ht₁
      rw [ht] at ht₂
      cases ht₁
      cases ht₂
      omega
  · rcases l with _ | ⟨m, _ | ⟨p, l⟩⟩
    · exact .inl rfl
    · exact .inr ⟨m, rfl⟩
    · exfalso
      obtain ⟨t, ht, hless⟩ := hi.stop m p (l ++ f :: below) rfl
      have hpair := hc.trust.sublist hi.suffix.sublist
      obtain ⟨t₁, t₂, ht₁, ht₂, hlt⟩ :=
        (List.pairwise_cons.1 (List.pairwise_cons.1 hpair).2).1 f (by simp)
      rw [hf] at ht₂
      rw [ht] at ht₁
      cases ht₁
      cases ht₂
      omega

section Steps

variable {n₀ n : Node} {P : Node → Prop} (E : ChainEnv)

theorem OnlyRead.spec_reorganizeBatch (h : OnlyRead n₀ n)
    (hnone : above pfork n.best.pmemIndexBest = []) (hone : (above pfork i).length ≤ 1) :
    Spec (fun _ => True) (OnNotConnected (OnlyRead n₀)) (reorganizeBatch E pfork i n) := by
  rw [reorganizeBatch, hnone]
  have hnothing : Spec (fun x : Node × List CTransaction => OnlyRead n₀ x.1) (OnNotConnected (OnlyRead n₀))
      ([].foldlM (disconnectOne E) (n, [])) := h
  refine hnothing.bind fun x hx => ?_
  have hrewound := hx.rewindToFork E pfork
  refine Spec.bind (Q := fun _ => True) ?_ fun _ _ => trivial
  match habove : above pfork i with
  | [] => trivial
  | [c] =>
    rw [List.reverse_singleton, List.foldlM_cons]
    refine Spec.bind (Q := fun _ => True) ?_ fun _ _ => trivial
    exact keptByReads.spec_connectOne (J := fun _ => True) E hrewound c (fun n b hn => hn.spec_connectBlock E c b _)
      fun n hash hashPrev r _ => FailsOther.updateRegistry E hash hashPrev r n _
  | _ :: _ :: _ =>
    rw [habove] at hone
    simp at hone

/-- The fork as `Reorganize` finds it, with the heights of the two heads. -/
def IsFork (disk : Disk) (best i pfork : MemChain) : Prop :=
  ∃ f below m rest hf hm, best = f :: below ∧ i = m :: rest ∧ heightOf disk f = some hf ∧
    heightOf disk m = some hm ∧ findFork best hf i hm = some pfork

theorem OnlyRead.spec_reorganize (h : OnlyRead n₀ n)
    (hbatch : ∀ n₁ pfork, OnlyRead n₀ n₁ → IsFork n₀.db.txdb.disk n₀.best.pmemIndexBest i pfork →
      Spec (fun _ => True) (OnNotConnected P) (reorganizeBatch E pfork i n₁)) :
    Spec (fun _ => True) (OnNotConnected P) (reorganize E i n) := by
  rw [reorganize]
  refine (h.spec_readHead _).bind fun x hx => ?_
  refine (hx.2.spec_readHead i).bind fun y hy => ?_
  obtain ⟨⟨f, below, hbest, hf⟩, -⟩ := hx
  obtain ⟨⟨m, rest, hi, hm⟩, hread⟩ := hy
  rw [h.best] at hbest
  have hbest' : y.2.best.pmemIndexBest = n₀.best.pmemIndexBest := by rw [hread.best]
  dsimp only
  split
  · trivial
  · next pfork hfork =>
    have hisFork : IsFork n₀.db.txdb.disk n₀.best.pmemIndexBest i pfork := by
      refine ⟨f, below, m, rest, x.1.nHeight, y.1.nHeight, hbest, hi, ?_, ?_, hbest' ▸ hfork⟩
      · rw [heightOf, hf, Option.map_some]
      · rw [heightOf, hm, Option.map_some]
    refine (hbatch y.2 pfork hread hisFork).bind fun z _ => ?_
    refine (FailsOther.foldlM FailsOther.unlink _ _ P).bind fun n₂ _ => ?_
    split
    · trivial
    · exact (FailsOther.foldlM FailsOther.link _ _ P).bind fun _ _ => trivial

theorem IsFork.eq_best {best : MemChain} (h : IsFork disk best i pfork)
    (hrising : Rising disk i) (hi : i = best ∨ ∃ m, i = m :: best) : pfork = best := by
  obtain ⟨f, below, m, rest, hf, hm, rfl, rfl, hheight, hheight', hfork⟩ := h
  rcases hi with heq | ⟨m', heq⟩
  · rw [heq, findFork_self (List.cons_ne_nil f below)] at hfork
    exact (Option.some.inj hfork).symm
  · cases heq
    obtain ⟨k, hk, hk'⟩ := (List.isChain_cons_cons.1 hrising.height).1
    rw [hheight] at hk
    rw [hheight'] at hk'
    cases hk
    cases hk'
    rw [findFork_cons m (List.cons_ne_nil f below)] at hfork
    exact (Option.some.inj hfork).symm

/-- All writes go to a batch, over a store. -/
structure InBatch (disk : Disk) (n : Node) : Prop where
  active : n.db.txdb.activeBatch.isSome
  disk : n.db.txdb.disk = disk

namespace InBatch

variable {disk : Disk}

theorem put (h : InBatch disk n) (k : DBKey) (v : Option k.Value) : InBatch disk (n.put k v) where
  active := KeyValue.Store.active_put h.active k v
  disk := (KeyValue.Store.disk_put_of_active h.active k v).trans h.disk

theorem foldl_put {α : Type} (key : α → DBKey) (val : (c : α) → Option (key c).Value) :
    ∀ (l : List α) {n : Node}, InBatch disk n → InBatch disk (l.foldl (fun n c => n.put (key c) (val c)) n)
  | [], _, h => h
  | c :: l, _, h => foldl_put key val l (h.put (key c) (val c))

theorem writeIndex (h : InBatch disk n) (hash : Uint256) (r : CDiskBlockIndex) :
    InBatch disk (n.writeIndex hash r) :=
  ⟨(h.put (.blockIndex hash) (some r)).active, (h.put (.blockIndex hash) (some r)).disk⟩

theorem applyExplore (h : InBatch disk n) (changes : List (Bytes × Option Bytes) × Map Int Nat) :
    InBatch disk (n.applyExplore changes) := by
  have hfold := foldl_put (fun c : Bytes × Option Bytes => .addr c.1) (fun c => c.2) changes.1 h
  exact ⟨hfold.active, hfold.disk⟩

theorem writeConnected (h : InBatch disk n) (b : CBlock) (m p : CBlockMemIndex)
    (r rPrev : CDiskBlockIndex) (mapQueuedChanges : MapTxIndex) :
    InBatch disk (writeConnected E b m p r rPrev mapQueuedChanges n) := by
  have hputs := foldl_put (fun e : Uint256 × CTxIndex => .tx e.1) (fun e => some e.2)
    mapQueuedChanges.toList (h.writeIndex m.hashBlock r)
  have hwritten := hputs.writeIndex p.hashBlock (rPrev.setNext m.hashBlock)
  rw [Stealth.writeConnected, exploreConnect]
  split
  · exact hwritten
  · exact hwritten.applyExplore _

theorem exploreDisconnect (h : InBatch disk n) (b : CBlock) : InBatch disk (exploreDisconnect E b n) := by
  rw [Stealth.exploreDisconnect]
  split
  · exact h
  · exact h.applyExplore _

theorem spec_reading (h : InBatch disk n) (disk' : Disk) (hash : Uint256) :
    Spec (fun x => InBatch disk x.2) (OnNotConnected P) (n.reading (n.db.readWith disk' hash)) := by
  refine Spec.of_ok (FailsOther.reading n _ P) fun x hx => ?_
  obtain ⟨mapCache, heq⟩ := Node.withCache_of_reading hx
  rw [heq]
  exact ⟨h.active, h.disk⟩

theorem keptByReads : KeptByReads (InBatch disk) where
  readIndex h hash _ := h.spec_reading _ hash
  readIndexLocal h hash _ := h.spec_reading _ hash

theorem spec_updateRegistry (h : InBatch disk n) (hash hashPrev : Uint256) (r : QPRegistry) :
    Spec (fun x => InBatch disk x.1) (OnNotConnected P) (updateRegistry E hash hashPrev r n) := by
  refine (h.spec_reading _ hash).bind fun x hx => ?_
  refine (hx.spec_reading _ hashPrev).bind fun y hy => ?_
  exact ⟨hy.active, hy.disk⟩

theorem spec_connectOne {st : Node × QPRegistry × List CTransaction} (h : InBatch disk st.1) (c : MemChain) :
    Spec (fun x => InBatch disk x.1) (OnNotConnected (InBatch disk)) (connectOne E st c) := by
  refine keptByReads.spec_connectOne E h c (fun n b hn => ?_) fun n hash hashPrev r hn =>
    hn.spec_updateRegistry E hash hashPrev r
  exact keptByReads.spec_connectBlock E hn c b st.2.1 fun n m p r rPrev q hn =>
    hn.writeConnected E b m p r rPrev q

theorem rewindToFork (h : InBatch disk n) (pfork : MemChain) : InBatch disk (rewindToFork E pfork n).1 := by
  rw [Stealth.rewindToFork]
  split <;> exact ⟨h.active, h.disk⟩

theorem of_disconnectTxIns : ∀ {vin : List CTxIn} {txdb txdb' : CTxDB}, txdb.activeBatch.isSome →
    disconnectTxIns vin txdb = some txdb' → txdb'.activeBatch.isSome ∧ txdb'.disk = txdb.disk
  | [], txdb, txdb', hactive, h => by
    cases h
    exact ⟨hactive, rfl⟩
  | txin :: vin, txdb, txdb', hactive, h => by
    rw [disconnectTxIns] at h
    split at h
    · cases h
      exact ⟨hactive, rfl⟩
    · split at h
      · cases h
      · obtain ⟨hactive', hdisk⟩ := of_disconnectTxIns (KeyValue.Store.active_put hactive _ _) h
        exact ⟨hactive', hdisk.trans (KeyValue.Store.disk_put_of_active hactive _ _)⟩

theorem of_disconnectTxs {vtx : List CTransaction} {txdb txdb' : CTxDB} (hactive : txdb.activeBatch.isSome)
    (h : disconnectTxs vtx txdb = some txdb') : txdb'.activeBatch.isSome ∧ txdb'.disk = txdb.disk := by
  refine OptionFold.foldlM_invariant
    (P := fun s : CTxDB => s.activeBatch.isSome ∧ s.disk = txdb.disk) ?_ ⟨hactive, rfl⟩ h
  intro s tx s' hs hstep
  rw [disconnectInputs] at hstep
  split at hstep
  · cases hstep
    exact hs
  · obtain ⟨hactive', hdisk⟩ := of_disconnectTxIns hs.1 hstep
    exact ⟨hactive', hdisk.trans hs.2⟩

end InBatch

def ClearedAt (hash : Uint256) (disk : Disk) : Prop :=
  ∃ r, disk.blockIndex hash = some r ∧ r.hashNext = 0

theorem clearedAt_update (disk : Disk) (hash : Uint256) (r : CDiskBlockIndex) :
    ClearedAt hash (Function.update disk (.blockIndex hash) (some (r.setNext 0))) :=
  ⟨(r.setNext 0).setExtendedSerialization, blockIndex_update_self disk hash (r.setNext 0), rfl⟩

theorem ClearedAt.update {hash : Uint256} (h : ClearedAt hash disk) (hash' : Uint256) (r : CDiskBlockIndex) :
    ClearedAt hash (Function.update disk (.blockIndex hash') (some (r.setNext 0))) := by
  by_cases heq : hash = hash'
  · subst heq
    exact clearedAt_update disk hash r
  · obtain ⟨s, hs, hnext⟩ := h
    refine ⟨s, ?_, hnext⟩
    rw [← hs]
    exact blockIndex_update_of_ne disk (fun hkey => heq (DBKey.blockIndex.inj hkey)) _

/-- The store of the batch has the record of a block without a next one. -/
def Cleared (hash : Uint256) (n : Node) : Prop := ∃ disk, InBatch disk n ∧ ClearedAt hash disk

/-- More records are cleared than in a store before, among them the one of the first block. -/
def ClearsMore (disk : Disk) (pprev : MemChain) (n : Node) : Prop :=
  ∃ disk', InBatch disk' n ∧ (∀ hash, ClearedAt hash disk → ClearedAt hash disk') ∧
    ∀ p rest, pprev = p :: rest → ClearedAt p.hashBlock disk'

theorem spec_clearNext (h : InBatch disk n) (pprev : MemChain) :
    Spec (ClearsMore disk pprev) (OnNotConnected P) (clearNext pprev n) := by
  cases pprev with
  | nil => exact ⟨disk, h, fun _ hc => hc, fun _ _ heq => by cases heq⟩
  | cons p rest =>
    refine (h.spec_reading _ p.hashBlock).bind fun x hx => ?_
    refine ⟨Function.update disk (.blockIndex p.hashBlock) (some (x.1.setNext 0)), ⟨hx.active, ?_⟩,
      fun hash hc => hc.update p.hashBlock x.1, fun p' rest' heq => ?_⟩
    · rw [← hx.disk]
      rfl
    · cases heq
      exact clearedAt_update disk p.hashBlock x.1

theorem spec_disconnectBlock (h : InBatch disk n) (pprev : MemChain) (b : CBlock) :
    Spec (ClearsMore disk pprev) (OnNotConnected P) (disconnectBlock E pprev b n) := by
  rw [disconnectBlock]
  split
  · trivial
  · next txdb htxs =>
    obtain ⟨hactive, hdisk⟩ := InBatch.of_disconnectTxs h.active htxs
    have htxdb : InBatch disk { n with db := { n.db with txdb := txdb } } :=
      ⟨hactive, hdisk.trans h.disk⟩
    refine (spec_clearNext htxdb pprev).bind fun x hx => ?_
    obtain ⟨disk', hbatch, hkeeps, hclears⟩ := hx
    refine ⟨disk', ?_, hkeeps, hclears⟩
    exact InBatch.foldl_put DBKey.tx (fun _ => none) _ (hbatch.exploreDisconnect E b)

theorem spec_disconnectOne {st : Node × List CTransaction} (h : InBatch disk st.1) (c : MemChain) :
    Spec (fun x => ClearsMore disk c.tail x.1) (OnNotConnected P) (disconnectOne E st c) := by
  cases c with
  | nil => trivial
  | cons m pprev =>
    refine (h.spec_reading _ m.hashBlock).bind fun x hx => ?_
    dsimp only
    split
    · trivial
    · next b _ => exact (spec_disconnectBlock E hx pprev b).bind fun y hy => hy

/-- A batch that disconnects a block clears the record of the previous one, whatever else happens. -/
theorem InBatch.spec_reorganizeBatch (h : InBatch disk n) {rest : MemChain}
    {m p : CBlockMemIndex} {others : List MemChain}
    (habove : above pfork n.best.pmemIndexBest = (m :: p :: rest) :: others) :
    Spec (fun _ => True) (OnNotConnected (Cleared p.hashBlock)) (reorganizeBatch E pfork i n) := by
  have hdisconnect : Spec (fun x : Node × List CTransaction => Cleared p.hashBlock x.1)
      (OnNotConnected (Cleared p.hashBlock))
      (((m :: p :: rest) :: others).foldlM (disconnectOne E) (n, [])) := by
    rw [List.foldlM_cons]
    refine (@spec_disconnectOne _ _ E (n, []) h (m :: p :: rest)).bind fun x hx => ?_
    obtain ⟨disk', hbatch, -, hclears⟩ := hx
    refine Spec.foldlM (fun y hy c => ?_) others ⟨disk', hbatch, hclears p rest rfl⟩
    obtain ⟨disk'', hbatch', hcleared⟩ := hy
    refine (spec_disconnectOne E hbatch' c).mono (fun z hz => ?_) fun _ _ hf => hf
    obtain ⟨disk₃, hbatch₃, hkeeps, -⟩ := hz
    exact ⟨disk₃, hbatch₃, hkeeps p.hashBlock hcleared⟩
  rw [reorganizeBatch, habove]
  refine hdisconnect.bind fun x hx => ?_
  obtain ⟨disk', hbatch, hcleared⟩ := hx
  refine Spec.bind (Q := fun _ => True) ?_ fun _ _ => trivial
  have hconnect := Spec.foldlM (Q := fun x => InBatch disk' x.1) (R := OnNotConnected (InBatch disk'))
    (fun st hst c => hst.spec_connectOne E c) (above pfork i).reverse
    (a := (_, (Stealth.rewindToFork E pfork x.1).2, [])) (hbatch.rewindToFork E pfork)
  refine hconnect.mono (fun _ _ => trivial) fun f n' hf => ?_
  cases f with
  | notConnected r => exact ⟨disk', hf, hcleared⟩
  | other => trivial

/-- The stored and cached state of the chain is the same: all records and indexes, what is read through the
cache, the counts of balances and the pointers. The trust of the best invalid chain is not part of it. -/
structure SameChainState (n n' : Node) : Prop where
  stored : ∀ k, k ≠ .bnBestInvalidTrust → n'.db.txdb.disk k = n.db.txdb.disk k
  cached : ∀ hash, n'.db.lookup n'.db.txdb.disk hash = n.db.lookup n.db.txdb.disk hash
  mapAddressBalances : n'.mapAddressBalances = n.mapAddressBalances
  pnext : n'.pnext = n.pnext
  mapBlockLookup : n'.mapBlockLookup = n.mapBlockLookup
  best : n'.best = n.best

theorem SameChainState.blockIndex {n n' : Node} (h : SameChainState n n') (hash : Uint256) :
    Disk.blockIndex n'.db.txdb.disk hash = Disk.blockIndex n.db.txdb.disk hash :=
  congrArg (Option.map CDiskBlockIndex.setExtendedSerialization) (h.stored (.blockIndex hash) nofun)

theorem OnlyRead.sameChainState (h₀ : OnlyRead n₀ n₀) (h : OnlyRead n₀ n) : SameChainState n₀ n where
  stored k _ := by rw [h.disk]
  cached hash := by rw [h.disk, h.lookup, h₀.lookup]
  mapAddressBalances := h.mapAddressBalances
  pnext := h.pnext
  mapBlockLookup := h.mapBlockLookup
  best := h.best

theorem SameChainState.putThrough (h : SameChainState n₀ n) (bnTrust : Int) : SameChainState n₀ { n with
      bnBestInvalidTrust := bnTrust
      db := { n.db with txdb := n.db.txdb.putThrough .bnBestInvalidTrust (some bnTrust) } } :=
  { h with
    stored := fun k hk => (Function.update_of_ne hk ..).trans (h.stored k hk)
    cached := fun hash => by
      refine Eq.trans ?_ (h.cached hash)
      have hrecord := @blockIndex_update_of_ne n.db.txdb.disk hash .bnBestInvalidTrust nofun (some bnTrust)
      exact congrArg (Option.or (Lru.find n.db.mapCache hash)) hrecord }

theorem spec_invalidChainFound (h₀ : OnlyRead n₀ n₀) (h : OnlyRead n₀ n) (c : MemChain) :
    Spec (SameChainState n₀) (OnNotConnected P) (invalidChainFound c n) := by
  refine (h.spec_readHead c).bind fun x hx => ?_
  have hsame := h₀.sameChainState hx.2
  dsimp only
  split
  · exact hsame.putThrough _
  · exact hsame

theorem Cleared.spec_invalidChainFound {hash : Uint256} (h : Cleared hash n) (c : MemChain) :
    Spec (fun n' => ClearedAt hash n'.db.txdb.disk) (OnNotConnected P)
      (invalidChainFound c n.txnAbort) := by
  obtain ⟨disk, hbatch, hcleared⟩ := h
  have hread : Spec (fun x => x.2.db.txdb.disk = disk) (OnNotConnected P) (n.txnAbort.readHead c) := by
    refine Spec.of_ok (FailsOther.readHead n.txnAbort c P) fun x hx => ?_
    cases c with
    | nil => cases hx
    | cons m c =>
      obtain ⟨mapCache, heq⟩ := Node.withCache_of_reading hx
      rw [heq]
      exact hbatch.disk
  refine hread.bind fun x hx => ?_
  rw [← hx] at hcleared
  dsimp only
  split
  · obtain ⟨r, hr, hnext⟩ := hcleared
    refine ⟨r, ?_, hnext⟩
    exact (@blockIndex_update_of_ne x.2.db.txdb.disk hash .bnBestInvalidTrust nofun _).trans hr
  · exact hcleared

section Aborts

variable (habort : ∀ n₁, P n₁ → Spec Q (OnNotConnected Q) (invalidChainFound c n₁.txnAbort))

include habort

theorem spec_abort {α : Type} {f : Failure} (hf : OnNotConnected P f n) :
    Spec (fun _ : α => True) (OnNotConnected Q)
      (do let n ← invalidChainFound c n.txnAbort; .error (f, n)) := by
  cases f with
  | notConnected r => exact (habort n hf).bind fun _ hn => hn
  | other => exact (FailsOther.invalidChainFound c n.txnAbort Q).bind fun _ _ => trivial

theorem spec_setBestChainInner (hconnect : Spec (fun _ => True) (OnNotConnected P) (connectBlock E c b r n)) :
    Spec (fun _ => True) (OnNotConnected Q) (setBestChainInner E c b r n) := by
  rw [setBestChainInner]
  split
  · next f n₁ heq =>
    rw [heq] at hconnect
    exact spec_abort habort hconnect
  · dsimp only
    split
    · trivial
    · exact (FailsOther.link _ c Q).bind fun _ _ => trivial

theorem spec_reorganizeTo {diskIndex : CDiskBlockIndex}
    (h : OnlyRead n₀ n) (hreorganize : ∀ i n₁, OnlyRead n₀ n₁ →
      Intermediate n₀.db.txdb.disk n₀.best.pindexBest.bnChainTrust c i →
      Spec (fun _ => True) (OnNotConnected P) (reorganize E i n₁)) :
    Spec (fun _ => True) (OnNotConnected Q) (reorganizeTo E c diskIndex r n) := by
  rw [reorganizeTo]
  refine h.spec_queueSecondary.bind fun x hx => ?_
  rw [h.best] at hx
  have hrun := hreorganize x.2.1 x.2.2 hx.1 hx.2
  dsimp only
  split
  · next f n₁ heq =>
    rw [heq] at hrun
    exact spec_abort habort hrun
  · refine (FailsOther.readHead _ _ Q).bind fun y _ => ?_
    refine (FailsOther.catchUp E _ _ _ _ _ _ Q).bind fun z _ => ?_
    split
    · trivial
    · exact (FailsOther.connectSecondary E _ _ _ _ Q).bind fun _ _ => trivial

theorem spec_setBestChain (h : OnlyRead n n)
    (hconnect : b.hashPrevBlock = n.best.hashBestChain → ∀ n₁, OnlyRead n.txnBegin n₁ →
      Spec (fun _ => True) (OnNotConnected P) (connectBlock E c b r n₁))
    (hreorganize : ∀ i n₁, OnlyRead n.txnBegin n₁ →
      Intermediate n.db.txdb.disk n.best.pindexBest.bnChainTrust c i →
      Spec (fun _ => True) (OnNotConnected P) (reorganize E i n₁)) :
    Spec (fun _ => True) (OnNotConnected Q) (setBestChain E c b r n) := by
  rw [setBestChain]
  refine (h.spec_readHead c).bind fun x hx => ?_
  have hbegun := hx.2.txnBegin
  have hbest : x.2.txnBegin.best = n.best := hx.2.best
  dsimp only
  split
  · trivial
  · split
    · next hprev =>
      rw [hbest] at hprev
      refine (spec_setBestChainInner E habort (hconnect hprev _ hbegun)).bind fun y _ => ?_
      exact (FailsOther.readHead _ c Q).bind fun _ _ => trivial
    · exact (spec_reorganizeTo E habort hbegun hreorganize).bind fun _ _ => trivial

end Aborts

end Steps

theorem Rising.suffix {c' : MemChain} (h : Rising disk c) (hc : c' <:+ c) : Rising disk c' :=
  ⟨h.trust.sublist hc.sublist, h.height.suffix hc⟩

theorem Consistent.not_clearedAt (h : Consistent n c b)
    {m p : CBlockMemIndex} {rest : MemChain} (hbest : n.best.pmemIndexBest = m :: p :: rest) :
    ¬ ClearedAt p.hashBlock n.db.txdb.disk := by
  have hnext := h.next
  rw [hbest] at hnext
  obtain ⟨hne, r, hr, hhash⟩ := (List.isChain_cons_cons.1 hnext).1
  rintro ⟨r', hr', hzero⟩
  rw [hr] at hr'
  cases hr'
  exact hne (hhash.symm.trans hzero)

theorem Consistent.suffix_of_hashPrev (h : Consistent n c b)
    (hprev : b.hashPrevBlock = n.best.hashBestChain) : n.best.pmemIndexBest <:+ c := by
  cases hbest : n.best.pmemIndexBest with
  | nil => exact List.nil_suffix
  | cons f below =>
    obtain ⟨m, p, rest, rfl, hp⟩ := h.hashPrev
    have heq : f :: below = p :: rest := by
      refine h.tree (hbest ▸ List.suffix_refl _) (List.suffix_cons m _) ?_
      rw [hp, hprev, h.hashBest f below hbest]
    rw [heq]
    exact List.suffix_cons m _

theorem IsFork.above_eq {best : MemChain} (h : IsFork disk best i pfork) (hnot : ¬ best <:+ i) :
    ∃ m p rest, best = m :: p :: rest ∧ above pfork best = (m :: p :: rest) :: above pfork (p :: rest) := by
  obtain ⟨f, below, m, rest, hf, hm, rfl, -, -, -, hfork⟩ := h
  obtain ⟨hne, hbest, hi⟩ := suffix_of_findFork hfork
  rcases List.suffix_cons_iff.1 hbest with rfl | hbelow
  · exact absurd hi hnot
  · obtain ⟨p, rest', rfl⟩ := List.exists_cons_of_ne_nil fun hnil => hne (List.suffix_nil.1 (hnil ▸ hbelow))
    refine ⟨f, p, rest', rfl, ?_⟩
    rw [above, if_neg]
    rintro rfl
    exact hnot hi

/-- When `SetBestChain` fails because a block does not connect, the state of the chain is what it was
exactly if no block had to be disconnected. -/
theorem setBestChain_restores_iff {E : ChainEnv} {n n' : Node} {c : MemChain} {b : CBlock}
    {r r' : QPRegistry} (h : Consistent n c b)
    (hrun : setBestChain E c b r n = .error (.notConnected r', n')) :
    SameChainState n n' ↔ n.best.pmemIndexBest <:+ c := by
  constructor
  · intro hsame
    by_contra hnot
    have hspec : Spec (fun _ => True) (OnNotConnected fun n' => ¬ SameChainState n n')
        (setBestChain E c b r n) := by
      refine spec_setBestChain (P := fun n₁ => ∃ hash, ¬ ClearedAt hash n.db.txdb.disk ∧ Cleared hash n₁) E
        ?_ h.onlyRead (fun hprev => absurd (h.suffix_of_hashPrev hprev) hnot) fun i n₁ hread hi => ?_
      · rintro n₁ ⟨hash, hnext, hcleared⟩
        refine (hcleared.spec_invalidChainFound c).mono (fun n₂ hn₂ hsame₂ => hnext ?_) fun _ _ hf => hf
        rwa [ClearedAt, hsame₂.blockIndex] at hn₂
      · refine hread.spec_reorganize E fun n₂ pfork hread' hfork => ?_
        obtain ⟨m, p, rest, hbest, habove⟩ := hfork.above_eq fun hsuffix => hnot (hsuffix.trans hi.suffix)
        have hbatch : InBatch n.db.txdb.disk n₂ := ⟨by rw [hread'.batch]; rfl, hread'.disk⟩
        rw [← hread'.best] at habove
        refine (hbatch.spec_reorganizeBatch E habove).mono (fun _ _ => trivial) fun f n₃ hf => ?_
        cases f with
        | notConnected r => exact ⟨p.hashBlock, h.not_clearedAt hbest, hf⟩
        | other => trivial
    exact hspec.of_error hrun hsame
  · intro hsuffix
    have hspec : Spec (fun _ => True) (OnNotConnected (SameChainState n)) (setBestChain E c b r n) := by
      refine spec_setBestChain E (fun n₁ hread => ?_) h.onlyRead
        (fun _ n₁ hread => hread.spec_connectBlock E c b r) fun i n₁ hread hi => ?_
      · exact spec_invalidChainFound h.onlyRead (hread.txnAbort h.noBatch) c
      · refine hread.spec_reorganize E fun n₂ pfork hread' hfork => ?_
        have hrising := h.risingNew.suffix hi.suffix
        have hbest : i = n.best.pmemIndexBest ∨ ∃ m, i = m :: n.best.pmemIndexBest := by
          obtain ⟨f, below, -, -, -, -, hbest, -⟩ := hfork
          have hbest : n.best.pmemIndexBest = f :: below := hbest
          rw [hbest] at hsuffix ⊢
          exact hi.of_suffix h.risingNew hsuffix (h.trustBest f below hbest)
        obtain rfl := hfork.eq_best hrising hbest
        refine hread'.spec_reorganizeBatch E (by rw [hread'.best]; exact above_self _) ?_
        rcases hbest with rfl | ⟨m, rfl⟩
        · exact (congrArg List.length (above_self _)).le.trans (Nat.zero_le 1)
        · exact (congrArg List.length (above_cons m _)).le
    exact hspec.of_error hrun

section Branch

/-- Four blocks: the first one, the best one on it, another one on the first, and one on the best. -/
def branchIndex (i : Nat) : CBlockMemIndex := ⟨BitVec.ofNat 256 i, 1, UInt32.ofNat i⟩

def branchRecord (i : Nat) : CDiskBlockIndex :=
  { minedRecord (if i = 1 then 1 else if i = 4 then 3 else 2) with
    hashBlock := BitVec.ofNat 256 i
    hashNext := if i = 1 then 2 else 0
    nBlockPos := UInt32.ofNat i
    bnChainTrust := 10 * i }

def branchNode : Node :=
  { minedNode with
    db.txdb.disk := fun
      | .blockIndex h => if 0 < h ∧ h < 5 then some (branchRecord h.toNat) else none
      | .tx h => if h = (mineTx 1).getHash rollingHash then some (.unspent ⟨1, 1, 82⟩ 1) else none
      | _ => none
    db.txdb.activeBatch := none
    best := ⟨[branchIndex 2, branchIndex 1], branchRecord 2, 2, 2, 20⟩ }

/-- The second block only mines. The later ones spend what the first one has mined, long before that is
mature, so that `ConnectInputs` fails. -/
def branchBlock (i : UInt32) : CBlock :=
  { minedBlock 20 (if i = 2 then [mineTx 2] else [mineTx 3, payTx ((mineTx 1).getHash rollingHash)]) with
    hashPrevBlock := if i = 4 then 2 else 1
    nNonce := i }

/-- The hash of a header is its nonce. -/
def branchEnv : ChainEnv :=
  { minedEnv with
    hash9 := fun header => BitVec.ofNat 256 (header.getD 76 0).toNat
    readBlock := fun _ nBlockPos => some (branchBlock nBlockPos)
    readTx := fun _ => some (mineTx 1) }

/-- The node that `SetBestChain` leaves when a block does not connect. -/
def failBranch (c : MemChain) (b : CBlock) : Option (QPRegistry × Node) :=
  match setBestChain branchEnv c b (.empty QPRegistry.mainEnv) branchNode with
  | .error (.notConnected r, n) => some (r, n)
  | _ => none

theorem setBestChain_of_failBranch {x : QPRegistry × Node} (h : failBranch c b = some x) :
    setBestChain branchEnv c b (.empty QPRegistry.mainEnv) branchNode = .error (.notConnected x.1, x.2) := by
  rw [failBranch] at h
  split at h
  · next heq =>
    cases h
    exact heq
  · cases h

theorem risingBest_branch : Rising branchNode.db.txdb.disk [branchIndex 2, branchIndex 1] where
  trust := List.pairwise_pair.2 ⟨20, 10, rfl, rfl, by decide⟩
  height := List.isChain_pair.2 ⟨1, rfl, rfl⟩

theorem consistent_branch (hprev : ∃ m p rest, c = m :: p :: rest ∧ p.hashBlock = b.hashPrevBlock)
    (htree : ∀ m ∈ [branchIndex 2, branchIndex 1].tails, m ≠ [] → ∀ m' ∈ c.tails,
      m.head?.map CBlockMemIndex.hashBlock = m'.head?.map CBlockMemIndex.hashBlock → m = m')
    (hrising : Rising branchNode.db.txdb.disk c) : Consistent branchNode c b where
  noBatch := rfl
  coherent := fun _ _ h => by cases h
  hashBest := by
    rintro m rest ⟨⟩
    rfl
  trustBest := by
    rintro m rest ⟨⟩
    rfl
  hashPrev := hprev
  tree := by
    intro c₁ c₂ m₁ m₂ h₁ h₂ heq
    exact htree _ ((List.mem_tails _ _).2 h₁) (List.cons_ne_nil _ _) _ ((List.mem_tails _ _).2 h₂)
      (congrArg some heq)
  risingBest := risingBest_branch
  risingNew := hrising
  next := List.isChain_pair.2 ⟨by decide, (branchRecord 1).setExtendedSerialization, rfl, rfl⟩

/-- A bad block on the best one. -/
theorem setBestChain_restores_iff_branch : ∃ r n',
    setBestChain branchEnv [branchIndex 4, branchIndex 2, branchIndex 1] (branchBlock 4)
      (.empty QPRegistry.mainEnv) branchNode = .error (.notConnected r, n') ∧
    SameChainState branchNode n' := by
  have hrun : (failBranch [branchIndex 4, branchIndex 2, branchIndex 1] (branchBlock 4)).isSome := by
    decide +kernel
  obtain ⟨x, hx⟩ := Option.isSome_iff_exists.1 hrun
  have hconsistent : Consistent branchNode [branchIndex 4, branchIndex 2, branchIndex 1] (branchBlock 4) := by
    refine consistent_branch ⟨_, _, _, rfl, rfl⟩ (by decide) ⟨?_, ?_⟩
    · refine List.pairwise_cons.2 ⟨List.forall_mem_cons.2 ⟨⟨40, 20, rfl, rfl, by decide⟩, ?_⟩,
        risingBest_branch.trust⟩
      exact List.forall_mem_singleton.2 ⟨40, 10, rfl, rfl, by decide⟩
    · exact List.isChain_cons_cons.2 ⟨⟨2, rfl, rfl⟩, risingBest_branch.height⟩
  have hfail := setBestChain_of_failBranch hx
  exact ⟨x.1, x.2, hfail, (setBestChain_restores_iff hconsistent hfail).2 (List.suffix_cons _ _)⟩

/-- A branch of one bad block with more trust than the best chain: the record of the block before the fork
has lost its next block. -/
theorem next_lost_after_failure : ∃ r n',
    Consistent branchNode [branchIndex 3, branchIndex 1] (branchBlock 3) ∧
    setBestChain branchEnv [branchIndex 3, branchIndex 1] (branchBlock 3) (.empty QPRegistry.mainEnv)
      branchNode = .error (.notConnected r, n') ∧
    (Disk.blockIndex branchNode.db.txdb.disk 1).map CDiskBlockIndex.hashNext = some 2 ∧
    (Disk.blockIndex n'.db.txdb.disk 1).map CDiskBlockIndex.hashNext = some 0 ∧
    ¬ SameChainState branchNode n' := by
  have hrun : ∃ x ∈ failBranch [branchIndex 3, branchIndex 1] (branchBlock 3),
      (Disk.blockIndex x.2.db.txdb.disk 1).map CDiskBlockIndex.hashNext = some 0 := by
    decide +kernel
  obtain ⟨x, hx, hlost⟩ := hrun
  refine ⟨x.1, x.2, ?_, setBestChain_of_failBranch hx, rfl, hlost, fun hsame => ?_⟩
  · exact consistent_branch ⟨_, _, _, rfl, rfl⟩ (by decide)
      ⟨List.pairwise_pair.2 ⟨30, 10, rfl, rfl, by decide⟩, List.isChain_pair.2 ⟨1, rfl, rfl⟩⟩
  · rw [hsame.blockIndex] at hlost
    exact absurd hlost (by decide)

end Branch

end Stealth

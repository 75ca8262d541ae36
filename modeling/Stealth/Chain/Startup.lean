import Stealth.Chain.Supply

/-!
The verification of the last blocks at start-up, from a block of the best chain up to the one below its tip.
-/

namespace Stealth

variable {c later earlier : MemChain} {m : CBlockMemIndex} {b : CBlock} {tx : CTransaction}
  {txindex : CTxIndex} {st : VerifyState}

def CBlockMemIndex.blockPos (m : CBlockMemIndex) : UInt32 × UInt32 := (m.nFile, m.nBlockPos)

def CDiskTxPos.blockPos (pos : CDiskTxPos) : UInt32 × UInt32 := (pos.nFile, pos.nBlockPos)

def checkDepth (nCheckBlocks nBestHeight : Int) : Int :=
  let nCheckDepth := if nCheckBlocks = 0 then 1000000000 else nCheckBlocks
  if nBestHeight - 1 < nCheckDepth then nBestHeight - 1 else nCheckDepth

/-- Step back from the best block, at most to the first block after genesis. -/
def backtrack : Nat → MemChain → MemChain
  | k + 1, _ :: p :: g :: rest => backtrack k (p :: g :: rest)
  | _, c => c

/-- The blocks from a start block up to the one below the tip, oldest first. -/
def upFrom (start : MemChain) : MemChain → List MemChain
  | [] => []
  | _ :: pprev => if start.length ≤ pprev.length then upFrom start pprev ++ [pprev] else []

def verifiedBlocks (nCheckBlocks nBestHeight : Int) (c : MemChain) : List MemChain :=
  upFrom (backtrack ((checkDepth nCheckBlocks nBestHeight).toNat - 1) c) c

structure VerifyState where
  mapBlockPos : List (UInt32 × UInt32)
  pmemIndexFork : Option (MemChain × Int)
  registry : QPRegistry

section Verify

variable (E : ChainEnv) (n : Node) (nCheckLevel : Int)

/-- Level 3, and lower for a transaction that is not in the block: the entry leads to the transaction. -/
def isLocated (m : CBlockMemIndex) (hashTx : Uint256) (txindex : CTxIndex) : Bool :=
  !(decide (2 < nCheckLevel) || m.blockPos != txindex.pos.blockPos) ||
    (E.readTx txindex.pos).any fun txFound => txFound.getHash E.hash == hashTx

/-- Level 6: a spent output is an input of the spending transaction, and that is valid. -/
def isSpentBy (hashTx : Uint256) (nOutput : Nat) (txpos : CDiskTxPos) : Bool :=
  (E.readTx txpos).any fun txSpend =>
    checkTransaction E.env.fTestNet (-1) txSpend &&
      txSpend.vin.any fun txin => txin.prevout.hash == hashTx && txin.prevout.n.toNat == nOutput

def spendIsFound (mapBlockPos : List (UInt32 × UInt32)) (hashTx : Uint256) (nOutput : Nat) (txpos : CDiskTxPos) :
    Bool :=
  txpos.isNull || mapBlockPos.contains txpos.blockPos &&
    (!decide (5 < nCheckLevel) || isSpentBy E hashTx nOutput txpos)

def spendsAreFound (mapBlockPos : List (UInt32 × UInt32)) (hashTx : Uint256) (txindex : CTxIndex) : Bool :=
  txindex.vSpent.zipIdx.all fun p => spendIsFound E nCheckLevel mapBlockPos hashTx p.2 p.1

/-- Level 5: the outputs that a transaction spends are marked. An output that the entry does not have counts
as unmarked. -/
def prevoutsAreSpent (tx : CTransaction) : Bool :=
  tx.vin.all fun txin => (n.txIndex txin.prevout.hash).all fun txindex =>
    txindex.vSpent[txin.prevout.n.toNat]?.any fun txpos => !txpos.isNull

/-- The loop over the transactions of a block: whether the fork point stays as it is. A transaction that is not
found ends the loop. -/
def txsAreIndexed (m : CBlockMemIndex) (mapBlockPos : List (UInt32 × UInt32)) : List CTransaction → Bool
  | [] => true
  | tx :: rest =>
    let hashTx := tx.getHash E.hash
    let fPrevouts := !decide (4 < nCheckLevel) || prevoutsAreSpent n tx
    match n.txIndex hashTx with
    | none => fPrevouts && txsAreIndexed m mapBlockPos rest
    | some txindex =>
      isLocated E nCheckLevel m hashTx txindex &&
        ((!decide (3 < nCheckLevel) || spendsAreFound E nCheckLevel mapBlockPos hashTx txindex) &&
          fPrevouts && txsAreIndexed m mapBlockPos rest)

def verifyBlock (diskIndexPrev : CDiskBlockIndex) (r : QPRegistry) (b : CBlock) : QPRegistry × Bool :=
  if 0 < nCheckLevel then
    let (r, vDeets) := (n.checkCtx E).checkBlock true true true true n.best.pindexBest.toCBlockIndex
      diskIndexPrev.toCBlockIndex r b
    (r, vDeets.isSome)
  else (r, true)

/-- Level 2: record the position of a block and check its transactions. -/
def verifyTxs (m : CBlockMemIndex) (pprev : MemChain) (nPrevHeight : Int) (b : CBlock) (st : VerifyState) :
    VerifyState :=
  if 1 < nCheckLevel then
    let mapBlockPos := m.blockPos :: st.mapBlockPos
    { st with
      mapBlockPos := mapBlockPos
      pmemIndexFork :=
        if txsAreIndexed E n nCheckLevel m mapBlockPos b.vtx then st.pmemIndexFork
        else some (pprev, nPrevHeight) }
  else st

/-- The loop over the blocks. It fails if a record or a block cannot be read, and ends with a fork point at a
block that `CheckBlock` rejects. -/
def verifyBlocks : List MemChain → VerifyState → Option VerifyState
  | (m :: p :: rest) :: cs, st =>
    match n.record m.hashBlock, n.record p.hashBlock with
    | some diskIndex, some diskIndexPrev =>
      if n.best.nBestHeight < diskIndex.nHeight then some st
      else
        match readFromDisk E diskIndex with
        | none => none
        | some b =>
          let (r, fValid) := verifyBlock E n nCheckLevel diskIndexPrev st.registry b
          if fValid then
            let st := verifyTxs E n nCheckLevel m (p :: rest) diskIndexPrev.nHeight b { st with registry := r }
            let (_, r, _) := st.registry.updateOnNewBlock E.env E.now .noSnaps false
              diskIndexPrev.toCBlockIndex diskIndex.toCBlockIndex n.snapshots
            verifyBlocks cs { st with registry := r }
          else
            let fLower := st.pmemIndexFork.all fun fork => decide (diskIndexPrev.nHeight < fork.2)
            some { st with
              registry := r
              pmemIndexFork :=
                if fLower then some (p :: rest, diskIndexPrev.nHeight) else st.pmemIndexFork }
    | _, _ => none
  | _, st => some st

/-- The database of a node describes its best chain: records and blocks can be read, index entries lead to their
transactions, what the blocks spend is marked, and each mark leads to a transaction of the same block or a later
one that spends the output. -/
structure ConsistentDB (c : MemChain) : Prop where
  positions : (c.map CBlockMemIndex.blockPos).Nodup
  blocks : ∀ m ∈ c, ∃ r b, n.record m.hashBlock = some r ∧ r.nHeight ≤ n.best.nBestHeight ∧
    readFromDisk E r = some b ∧ E.readBlock m.nFile m.nBlockPos = some b
  located : ∀ m ∈ c, ∀ b, E.readBlock m.nFile m.nBlockPos = some b → ∀ tx ∈ b.vtx, ∀ txindex,
    n.txIndex (tx.getHash E.hash) = some txindex →
      ∃ txFound, E.readTx txindex.pos = some txFound ∧ txFound.getHash E.hash = tx.getHash E.hash
  marked : ∀ m ∈ c, ∀ b, E.readBlock m.nFile m.nBlockPos = some b → ∀ tx ∈ b.vtx, ∀ txin ∈ tx.vin, ∀ txindex,
    n.txIndex txin.prevout.hash = some txindex →
      ∃ txpos, txindex.vSpent[txin.prevout.n.toNat]? = some txpos ∧ txpos.isNull = false
  spent : ∀ later m earlier, c = later ++ m :: earlier →
    ∀ b, E.readBlock m.nFile m.nBlockPos = some b → ∀ tx ∈ b.vtx, ∀ txindex,
    n.txIndex (tx.getHash E.hash) = some txindex → ∀ nOutput txpos,
    txindex.vSpent[nOutput]? = some txpos → txpos.isNull = false →
      ∃ m' ∈ later ++ [m], m'.blockPos = txpos.blockPos ∧
        ∃ b' txSpend, E.readBlock m'.nFile m'.nBlockPos = some b' ∧ txSpend ∈ b'.vtx ∧
          E.readTx txpos = some txSpend ∧ checkTransaction E.env.fTestNet (-1) txSpend = true ∧
          ∃ txin ∈ txSpend.vin, txin.prevout.hash = tx.getHash E.hash ∧ txin.prevout.n.toNat = nOutput

/-- `CheckBlock` accepts the blocks, each with the registry that the pass has reached. -/
def BlocksPass : List MemChain → QPRegistry → Prop
  | (m :: p :: _) :: cs, r => ∀ diskIndex diskIndexPrev b, n.record m.hashBlock = some diskIndex →
      n.record p.hashBlock = some diskIndexPrev → readFromDisk E diskIndex = some b →
      (verifyBlock E n nCheckLevel diskIndexPrev r b).2 = true ∧
        BlocksPass cs ((verifyBlock E n nCheckLevel diskIndexPrev r b).1.updateOnNewBlock E.env E.now .noSnaps
          false diskIndexPrev.toCBlockIndex diskIndex.toCBlockIndex n.snapshots).2.1
  | _, _ => True

/-- The outputs of the transactions of a block are spent in that block, if at all. -/
def SpentAtOnce (m : CBlockMemIndex) : Prop :=
  ∀ b, E.readBlock m.nFile m.nBlockPos = some b → ∀ tx ∈ b.vtx, ∀ txindex,
    n.txIndex (tx.getHash E.hash) = some txindex → ∀ txpos ∈ txindex.vSpent, txpos.isNull = false →
      txpos.blockPos = m.blockPos

variable {E n nCheckLevel}

theorem ConsistentDB.prevoutsAreSpent (h : ConsistentDB E n c) (hm : m ∈ c)
    (hb : E.readBlock m.nFile m.nBlockPos = some b) (htx : tx ∈ b.vtx) :
    Stealth.prevoutsAreSpent n tx = true := by
  rw [Stealth.prevoutsAreSpent, List.all_eq_true]
  intro txin htxin
  rw [Option.all_eq_true]
  intro txindex hindex
  obtain ⟨txpos, hpos, hmark⟩ := h.marked m hm b hb tx htx txin htxin txindex hindex
  rw [hpos, Option.any_some, hmark]
  rfl

theorem ConsistentDB.isLocated (h : ConsistentDB E n c) (hm : m ∈ c)
    (hb : E.readBlock m.nFile m.nBlockPos = some b) (htx : tx ∈ b.vtx)
    (hindex : n.txIndex (tx.getHash E.hash) = some txindex) :
    Stealth.isLocated E nCheckLevel m (tx.getHash E.hash) txindex = true := by
  obtain ⟨txFound, hfound, hhash⟩ := h.located m hm b hb tx htx txindex hindex
  rw [Stealth.isLocated, hfound, Option.any_some, hhash, beq_self_eq_true, Bool.or_true]

theorem ConsistentDB.isSpentBy (h : ConsistentDB E n c)
    (hc : c = later ++ m :: earlier) (hb : E.readBlock m.nFile m.nBlockPos = some b) (htx : tx ∈ b.vtx)
    (hindex : n.txIndex (tx.getHash E.hash) = some txindex) {nOutput : Nat} {txpos : CDiskTxPos}
    (hpos : txindex.vSpent[nOutput]? = some txpos) (hmark : txpos.isNull = false) :
    Stealth.isSpentBy E (tx.getHash E.hash) nOutput txpos = true := by
  obtain ⟨m', -, -, b', txSpend, -, -, hread, hvalid, txin, htxin, hhash, hout⟩ :=
    h.spent later m earlier hc b hb tx htx txindex hindex nOutput txpos hpos hmark
  rw [Stealth.isSpentBy, hread, Option.any_some, hvalid, Bool.true_and, List.any_eq_true]
  exact ⟨txin, htxin, by rw [hhash, hout, beq_self_eq_true, beq_self_eq_true]; rfl⟩

variable (nCheckLevel) in
theorem ConsistentDB.spendsAreFound_iff (h : ConsistentDB E n c)
    (hc : c = later ++ m :: earlier) (hb : E.readBlock m.nFile m.nBlockPos = some b) (htx : tx ∈ b.vtx)
    (hindex : n.txIndex (tx.getHash E.hash) = some txindex) (mapBlockPos : List (UInt32 × UInt32)) :
    spendsAreFound E nCheckLevel mapBlockPos (tx.getHash E.hash) txindex = true ↔
      ∀ txpos ∈ txindex.vSpent, txpos.isNull = false → txpos.blockPos ∈ mapBlockPos := by
  rw [spendsAreFound, List.all_eq_true]
  constructor
  · intro hall txpos hmem hmark
    obtain ⟨nOutput, hpos⟩ := List.getElem?_of_mem hmem
    have hone := hall (txpos, nOutput) (List.mk_mem_zipIdx_iff_getElem?.2 hpos)
    rw [spendIsFound, hmark, Bool.false_or, Bool.and_eq_true, List.contains_iff_mem] at hone
    exact hone.1
  · rintro hall ⟨txpos, nOutput⟩ hmem
    have hpos := List.mk_mem_zipIdx_iff_getElem?.1 hmem
    rw [spendIsFound]
    cases hmark : txpos.isNull with
    | true => rfl
    | false =>
      have hin := hall txpos (List.mem_of_getElem? hpos) hmark
      rw [Bool.false_or, List.contains_iff_mem.2 hin, h.isSpentBy hc hb htx hindex hpos hmark, Bool.or_true]
      rfl

variable (nCheckLevel) in
/-- The transactions of a block raise no alarm exactly if level 4 is not reached or their outputs are spent in
recorded blocks. -/
theorem ConsistentDB.txsAreIndexed_iff (h : ConsistentDB E n c)
    (hc : c = later ++ m :: earlier) (hb : E.readBlock m.nFile m.nBlockPos = some b)
    (mapBlockPos : List (UInt32 × UInt32)) {vtx : List CTransaction} (hvtx : vtx ⊆ b.vtx) :
    txsAreIndexed E n nCheckLevel m mapBlockPos vtx = true ↔
      nCheckLevel ≤ 3 ∨ ∀ tx ∈ vtx, ∀ txindex, n.txIndex (tx.getHash E.hash) = some txindex →
        ∀ txpos ∈ txindex.vSpent, txpos.isNull = false → txpos.blockPos ∈ mapBlockPos := by
  have hm : m ∈ c := hc ▸ List.mem_append_right _ List.mem_cons_self
  induction vtx with
  | nil => exact ⟨fun _ => .inr fun _ hmem => absurd hmem List.not_mem_nil, fun _ => rfl⟩
  | cons tx rest ih =>
    obtain ⟨htx, hrest⟩ := List.cons_subset.1 hvtx
    have hprevouts := h.prevoutsAreSpent hm hb htx
    rw [txsAreIndexed, hprevouts, Bool.or_true]
    cases hindex : n.txIndex (tx.getHash E.hash) with
    | none =>
      refine (ih hrest).trans ?_
      simp only [List.forall_mem_cons, hindex, reduceCtorEq, false_implies, implies_true, true_and]
    | some txindex =>
      have hspends := h.spendsAreFound_iff nCheckLevel hc hb htx hindex mapBlockPos
      dsimp only
      rw [h.isLocated hm hb htx hindex, Bool.true_and, Bool.and_true, Bool.and_eq_true, Bool.or_eq_true,
        hspends, Bool.not_eq_true', decide_eq_false_iff_not, Int.not_lt]
      refine (and_congr_right fun _ => ih hrest).trans ?_
      simp only [List.forall_mem_cons, hindex, Option.some.injEq, forall_eq']
      exact or_and_left.symm

theorem suffix_of_mem_upFrom {start : MemChain} : ∀ {c d : MemChain}, d ∈ upFrom start c →
    d <:+ c.tail ∧ start.length ≤ d.length
  | [], _, h => absurd h List.not_mem_nil
  | _ :: pprev, d, h => by
    rw [upFrom] at h
    split at h
    · next hle =>
      rcases List.mem_append.1 h with h | h
      · obtain ⟨hsuffix, hlength⟩ := suffix_of_mem_upFrom h
        exact ⟨hsuffix.trans (List.tail_suffix pprev), hlength⟩
      · rw [List.mem_singleton.1 h]
        exact ⟨List.suffix_refl pprev, hle⟩
    · exact absurd h List.not_mem_nil

theorem pairwise_upFrom (start : MemChain) : ∀ c : MemChain, (upFrom start c).Pairwise fun d d' => d <:+ d'.tail
  | [] => List.Pairwise.nil
  | _ :: pprev => by
    rw [upFrom]
    split
    · rw [List.pairwise_append]
      refine ⟨pairwise_upFrom start pprev, List.pairwise_singleton _ _, ?_⟩
      intro d hd d' hd'
      rw [List.mem_singleton.1 hd']
      exact (suffix_of_mem_upFrom hd).1
    · exact List.Pairwise.nil

theorem two_le_length_backtrack : ∀ (k : Nat) {c : MemChain}, 2 ≤ c.length → 2 ≤ (backtrack k c).length
  | 0, _, h => by
    rw [backtrack]
    · exact h
    · intro _ _ _ _ _ hk
      cases hk
  | k + 1, [], h => absurd h (by simp)
  | k + 1, [_], h => absurd h (by simp)
  | k + 1, [_, _], h => h
  | k + 1, _ :: p :: g :: rest, _ => two_le_length_backtrack k (Nat.le_add_left 2 rest.length)

theorem exists_of_mem_verifiedBlocks {nCheckBlocks nBestHeight : Int} {d : MemChain}
    (h : d ∈ verifiedBlocks nCheckBlocks nBestHeight c) : ∃ m p rest, d = m :: p :: rest := by
  match c, h with
  | [], h => exact absurd h List.not_mem_nil
  | [m], h =>
    have hlength := suffix_of_mem_upFrom h
    rw [List.suffix_nil.1 hlength.1] at hlength
    cases hk : (checkDepth nCheckBlocks nBestHeight).toNat - 1 with
    | zero => simp [hk, backtrack] at hlength
    | succ k => simp [hk, backtrack] at hlength
  | m :: p :: rest, h =>
    have hlength : 2 ≤ (m :: p :: rest).length := Nat.le_add_left 2 rest.length
    have htwo := Nat.le_trans (two_le_length_backtrack _ hlength) (suffix_of_mem_upFrom h).2
    match d, htwo with
    | m :: p :: rest, _ => exact ⟨m, p, rest, rfl⟩

/-- With the positions of earlier blocks recorded, the transactions of a block raise no alarm exactly if level 4
is not reached or their outputs are spent at once. -/
theorem ConsistentDB.txsAreIndexed_iff_spentAtOnce (h : ConsistentDB E n c)
    {pprev : MemChain} (hc : m :: pprev <:+ c) (hb : E.readBlock m.nFile m.nBlockPos = some b)
    {mapBlockPos : List (UInt32 × UInt32)} (hpos : mapBlockPos ⊆ pprev.map CBlockMemIndex.blockPos) :
    txsAreIndexed E n nCheckLevel m (m.blockPos :: mapBlockPos) b.vtx = true ↔
      nCheckLevel ≤ 3 ∨ SpentAtOnce E n m := by
  obtain ⟨later, rfl⟩ := hc
  rw [h.txsAreIndexed_iff nCheckLevel rfl hb _ (List.Subset.refl _)]
  apply or_congr_right
  constructor
  · intro hall b' hb' tx htx txindex hindex txpos hmem hmark
    cases hb.symm.trans hb'
    obtain ⟨nOutput, hspent⟩ := List.getElem?_of_mem hmem
    obtain ⟨m', hm', hblock, -⟩ := h.spent later m pprev rfl b hb tx htx txindex hindex nOutput txpos hspent hmark
    rcases List.mem_cons.1 (hall tx htx txindex hindex txpos hmem hmark) with heq | hold
    · exact heq
    · -- a later block does not have the position of an earlier one
      have hnodup := h.positions
      rw [List.append_cons, List.map_append, List.nodup_append] at hnodup
      exact absurd rfl (hnodup.2.2 _ (hblock ▸ List.mem_map_of_mem hm') _ (hpos hold))
  · intro honce tx htx txindex hindex txpos hmem hmark
    rw [honce b hb tx htx txindex hindex txpos hmem hmark]
    exact List.mem_cons_self

theorem verifyTxs_registry (m : CBlockMemIndex) (pprev : MemChain) (nPrevHeight : Int) (b : CBlock)
    (st : VerifyState) : (verifyTxs E n nCheckLevel m pprev nPrevHeight b st).registry = st.registry := by
  rw [verifyTxs]
  split <;> rfl

theorem verifyTxs_mapBlockPos (m : CBlockMemIndex) (pprev : MemChain) (nPrevHeight : Int) (b : CBlock)
    (st : VerifyState) :
    (verifyTxs E n nCheckLevel m pprev nPrevHeight b st).mapBlockPos ⊆ m.blockPos :: st.mapBlockPos := by
  rw [verifyTxs]
  split
  · exact List.Subset.refl _
  · exact List.subset_cons_self _ _

theorem ConsistentDB.verifyTxs_pmemIndexFork (h : ConsistentDB E n c)
    {pprev : MemChain} (hc : m :: pprev <:+ c) (hb : E.readBlock m.nFile m.nBlockPos = some b)
    (hpos : st.mapBlockPos ⊆ pprev.map CBlockMemIndex.blockPos) (nPrevHeight : Int) :
    (verifyTxs E n nCheckLevel m pprev nPrevHeight b st).pmemIndexFork = none ↔
      st.pmemIndexFork = none ∧ (nCheckLevel ≤ 3 ∨ SpentAtOnce E n m) := by
  rw [← h.txsAreIndexed_iff_spentAtOnce hc hb hpos, verifyTxs]
  split
  · dsimp only
    split
    · next hquiet => exact (and_iff_left hquiet).symm
    · next halarm => exact ⟨fun hnone => (nomatch hnone), fun hand => absurd hand.2 halarm⟩
  · next hlevel =>
    rw [h.txsAreIndexed_iff_spentAtOnce hc hb hpos]
    exact (and_iff_left (.inl (by omega))).symm

theorem ConsistentDB.verifyBlocks_cons (h : ConsistentDB E n c) {p : CBlockMemIndex}
    {rest : MemChain} (hc : m :: p :: rest <:+ c) {cs : List MemChain}
    (hpos : st.mapBlockPos ⊆ (p :: rest).map CBlockMemIndex.blockPos)
    (hpass : BlocksPass E n nCheckLevel ((m :: p :: rest) :: cs) st.registry) :
    ∃ next, verifyBlocks E n nCheckLevel ((m :: p :: rest) :: cs) st = verifyBlocks E n nCheckLevel cs next ∧
      BlocksPass E n nCheckLevel cs next.registry ∧ next.mapBlockPos ⊆ m.blockPos :: st.mapBlockPos ∧
      (next.pmemIndexFork = none ↔ st.pmemIndexFork = none ∧ (nCheckLevel ≤ 3 ∨ SpentAtOnce E n m)) := by
  obtain ⟨r, b, hr, hheight, hread, hb⟩ := h.blocks m (hc.subset List.mem_cons_self)
  obtain ⟨rp, -, hrp, -⟩ := h.blocks p (hc.subset (List.mem_cons_of_mem _ List.mem_cons_self))
  obtain ⟨hvalid, hnext⟩ := hpass r rp b hr hrp hread
  rw [verifyBlocks, hr, hrp]
  dsimp only
  rw [if_neg (Int.not_lt.2 hheight), hread]
  dsimp only
  rw [if_pos hvalid, verifyTxs_registry]
  refine ⟨_, rfl, hnext, verifyTxs_mapBlockPos m _ _ b _, ?_⟩
  apply h.verifyTxs_pmemIndexFork hc hb
  exact hpos

/-- In a consistent database with accepted blocks the pass reads every block, and sets a fork point exactly at
level 4 and above, if an output of one of the blocks is spent in a later block. -/
theorem ConsistentDB.verifyBlocks (h : ConsistentDB E n c) {cs : List MemChain}
    (hcs : ∀ d ∈ cs, d <:+ c ∧ ∃ m p rest, d = m :: p :: rest) (habove : cs.Pairwise fun d d' => d <:+ d'.tail)
    (hpos : ∀ d ∈ cs, st.mapBlockPos ⊆ d.tail.map CBlockMemIndex.blockPos)
    (hpass : BlocksPass E n nCheckLevel cs st.registry) :
    ∃ st', Stealth.verifyBlocks E n nCheckLevel cs st = some st' ∧
      (st'.pmemIndexFork = none ↔
        st.pmemIndexFork = none ∧ (nCheckLevel ≤ 3 ∨ ∀ d ∈ cs, ∀ m ∈ d.head?, SpentAtOnce E n m)) := by
  induction cs generalizing st with
  | nil =>
    have hnone : nCheckLevel ≤ 3 ∨ ∀ d ∈ ([] : List MemChain), ∀ m ∈ d.head?, SpentAtOnce E n m :=
      .inr fun _ hmem => absurd hmem List.not_mem_nil
    exact ⟨st, rfl, (and_iff_left hnone).symm⟩
  | cons d cs ih =>
    obtain ⟨⟨hsuffix, m, p, rest, rfl⟩, hsuffixes⟩ := List.forall_mem_cons.1 hcs
    obtain ⟨hbelow, hrest⟩ := List.pairwise_cons.1 habove
    obtain ⟨hposm, hposs⟩ := List.forall_mem_cons.1 hpos
    obtain ⟨next, heq, hpassNext, hposNext, hfork⟩ := h.verifyBlocks_cons hsuffix hposm hpass
    have hposs' : ∀ d ∈ cs, next.mapBlockPos ⊆ d.tail.map CBlockMemIndex.blockPos := by
      intro d hd
      -- the block is below those that follow
      have hmem := List.mem_map_of_mem (f := CBlockMemIndex.blockPos) ((hbelow d hd).subset List.mem_cons_self)
      exact List.Subset.trans hposNext (List.cons_subset.2 ⟨hmem, hposs d hd⟩)
    obtain ⟨st', hst', hiff⟩ := ih hsuffixes hrest hposs' hpassNext
    refine ⟨st', heq.trans hst', hiff.trans ?_⟩
    rw [hfork, List.forall_mem_cons, and_assoc, ← or_and_left]
    simp only [List.head?_cons, Option.mem_some_iff, forall_eq']

/-- At start-up with a consistent database whose blocks are accepted the pass reports no error, and sets no fork
point exactly if the check level is at most 3 or no output of a verified block is spent in a later block. -/
theorem verifyBlocks_verifiedBlocks {c : MemChain} (h : ConsistentDB E n c) (nCheckBlocks : Int) {r : QPRegistry}
    (hpass : BlocksPass E n nCheckLevel (verifiedBlocks nCheckBlocks n.best.nBestHeight c) r) :
    ∃ st, verifyBlocks E n nCheckLevel (verifiedBlocks nCheckBlocks n.best.nBestHeight c) ⟨[], none, r⟩ = some st ∧
      (st.pmemIndexFork = none ↔ nCheckLevel ≤ 3 ∨
        ∀ d ∈ verifiedBlocks nCheckBlocks n.best.nBestHeight c, ∀ m ∈ d.head?, SpentAtOnce E n m) := by
  have hcs : ∀ d ∈ verifiedBlocks nCheckBlocks n.best.nBestHeight c,
      d <:+ c ∧ ∃ m p rest, d = m :: p :: rest := by
    intro d hd
    exact ⟨(suffix_of_mem_upFrom hd).1.trans (List.tail_suffix c), exists_of_mem_verifiedBlocks hd⟩
  obtain ⟨st, hst, hiff⟩ := @ConsistentDB.verifyBlocks c ⟨[], none, r⟩ E n nCheckLevel h _ hcs (pairwise_upFrom _ c)
    (fun _ _ => List.nil_subset _) hpass
  exact ⟨st, hst, hiff.trans (and_iff_right rfl)⟩

end Verify

/-- Four mined blocks; the last one pays the coins of the one before on, twice. -/
def startBlock : Nat → CBlock
  | 0 => minedBlock 1 [mineTx 7]
  | 1 => minedBlock 2 [mineTx 8]
  | 2 => firstMined
  | _ => secondMined

def startIndex (i : Nat) : CBlockMemIndex :=
  ⟨(startBlock i).getHash false rollingHash 0, 1, UInt32.ofNat (1000 * i)⟩

def startChain : MemChain := [startIndex 3, startIndex 2, startIndex 1, startIndex 0]

def startEntries : List (CTransaction × CTxIndex) :=
  let pay := payTx ((mineTx 1).getHash rollingHash)
  [(mineTx 7, ⟨⟨1, 0, 1⟩, [.null]⟩), (mineTx 8, ⟨⟨1, 1000, 1⟩, [.null]⟩),
    (mineTx 1, ⟨⟨1, 2000, 1⟩, [⟨1, 3000, 2⟩]⟩), (mineTx 2, ⟨⟨1, 3000, 1⟩, [.null]⟩),
    (pay, ⟨⟨1, 3000, 2⟩, [⟨1, 3000, 3⟩]⟩), (payTx (pay.getHash rollingHash), ⟨⟨1, 3000, 3⟩, [.null]⟩)]

def startEnv : ChainEnv :=
  { minedEnv with
    readBlock := fun _ nBlockPos => some (startBlock (nBlockPos.toNat / 1000))
    readTx := fun pos => (startEntries.find? fun e => e.2.pos == pos).map Prod.fst }

def startRecord (i : Nat) : CDiskBlockIndex :=
  { minedRecord i with
    hashBlock := (startIndex i).hashBlock
    nFile := 1
    nBlockPos := UInt32.ofNat (1000 * i) }

def startNode : Node :=
  { minedNode with
    db :=
      { txdb :=
          { disk := fun
              | .blockIndex h => ((List.range 4).find? fun i => (startIndex i).hashBlock == h).map startRecord
              | .tx h => (startEntries.find? fun e => e.1.getHash rollingHash == h).map Prod.snd
              | _ => none
            activeBatch := none }
        mapCache := [] }
    best := ⟨startChain, startRecord 3, (startIndex 3).hashBlock, 3, 0⟩ }

theorem verifiedBlocks_start : verifiedBlocks 0 startNode.best.nBestHeight startChain =
    [[startIndex 2, startIndex 1, startIndex 0]] := rfl

theorem start_disk : ∀ i < 4,
    startNode.record (startIndex i).hashBlock = some (startRecord i).setExtendedSerialization ∧
      readFromDisk startEnv (startRecord i).setExtendedSerialization = some (startBlock i) ∧
      startEnv.readBlock (startIndex i).nFile (startIndex i).nBlockPos = some (startBlock i) := by
  decide +kernel

/-- A mark leads to the input of a transaction in one of the last blocks of the chain. -/
def LeadsToSpend (k : Nat) (tx : CTransaction) (txpos : CDiskTxPos) (nOutput : Nat) : Prop :=
  ∃ m ∈ startChain.take (k + 1), m.blockPos = txpos.blockPos ∧
    ∃ b ∈ startEnv.readBlock m.nFile m.nBlockPos, ∃ txSpend ∈ b.vtx, startEnv.readTx txpos = some txSpend ∧
      checkTransaction startEnv.env.fTestNet (-1) txSpend = true ∧
        ∃ txin ∈ txSpend.vin, txin.prevout.hash = tx.getHash startEnv.hash ∧ txin.prevout.n.toNat = nOutput

instance (k : Nat) (tx : CTransaction) (txpos : CDiskTxPos) (nOutput : Nat) :
    Decidable (LeadsToSpend k tx txpos nOutput) := by unfold LeadsToSpend; infer_instance

theorem start_spent : ∀ k < 4, ∀ m ∈ startChain[k]?, ∀ b ∈ startEnv.readBlock m.nFile m.nBlockPos, ∀ tx ∈ b.vtx,
    ∀ txindex ∈ startNode.txIndex (tx.getHash startEnv.hash), ∀ p ∈ txindex.vSpent.zipIdx,
      p.1.isNull = false → LeadsToSpend k tx p.1 p.2 := by
  decide +kernel

theorem consistent_start : ConsistentDB startEnv startNode startChain where
  positions := by decide
  blocks := by
    have hdisk : ∀ m ∈ startChain, ∃ r ∈ startNode.record m.hashBlock, r.nHeight ≤ startNode.best.nBestHeight ∧
        ∃ b ∈ readFromDisk startEnv r, startEnv.readBlock m.nFile m.nBlockPos = some b := by decide +kernel
    intro m hm
    obtain ⟨r, hr, hheight, b, hb, hread⟩ := hdisk m hm
    exact ⟨r, b, hr, hheight, hb, hread⟩
  located := by
    change ∀ m ∈ startChain, ∀ b ∈ startEnv.readBlock m.nFile m.nBlockPos, ∀ tx ∈ b.vtx,
      ∀ txindex ∈ startNode.txIndex (tx.getHash startEnv.hash), ∃ txFound ∈ startEnv.readTx txindex.pos,
        txFound.getHash startEnv.hash = tx.getHash startEnv.hash
    decide +kernel
  marked := by
    change ∀ m ∈ startChain, ∀ b ∈ startEnv.readBlock m.nFile m.nBlockPos, ∀ tx ∈ b.vtx, ∀ txin ∈ tx.vin,
      ∀ txindex ∈ startNode.txIndex txin.prevout.hash,
        ∃ txpos ∈ txindex.vSpent[txin.prevout.n.toNat]?, txpos.isNull = false
    decide +kernel
  spent later m earlier hc b hb tx htx txindex hindex nOutput txpos hpos hmark := by
    have hsplit : startChain = (later ++ [m]) ++ earlier := by rw [hc, List.append_assoc]; rfl
    have hlast : later.length < 4 := by
      have hlength : 4 = _ := congrArg List.length hsplit
      simp only [List.length_append, List.length_singleton] at hlength
      omega
    have hm : startChain[later.length]? = some m := by
      rw [hc, List.getElem?_append_right (Nat.le_refl _), Nat.sub_self, List.getElem?_cons_zero]
    obtain ⟨m', hm', hblock, b', hb', txSpend, htxSpend, hspend⟩ := start_spent _ hlast m hm b hb tx htx txindex
      hindex (txpos, nOutput) (List.mk_mem_zipIdx_iff_getElem?.2 hpos) hmark
    rw [hsplit, List.take_left' (by rw [List.length_append, List.length_singleton])] at hm'
    exact ⟨m', hm', hblock, b', txSpend, hb', htxSpend, hspend⟩

theorem blocksPass_start (nCheckLevel : Int) : BlocksPass startEnv startNode nCheckLevel
    (verifiedBlocks 0 startNode.best.nBestHeight startChain) (.empty QPRegistry.mainEnv) := by
  rw [verifiedBlocks_start]
  intro diskIndex diskIndexPrev b hindex hprev hread
  obtain rfl := Option.some.inj ((start_disk 2 (by decide)).1.symm.trans hindex)
  obtain rfl := Option.some.inj ((start_disk 1 (by decide)).1.symm.trans hprev)
  obtain rfl := Option.some.inj ((start_disk 2 (by decide)).2.1.symm.trans hread)
  refine ⟨?_, trivial⟩
  rw [verifyBlock]
  split
  · decide +kernel
  · rfl

/-- At level 3 the node starts without a fork point. -/
theorem verifyBlocks_start_three : ∃ st, verifyBlocks startEnv startNode 3
    (verifiedBlocks 0 startNode.best.nBestHeight startChain) ⟨[], none, .empty QPRegistry.mainEnv⟩ = some st ∧
      st.pmemIndexFork = none := by
  obtain ⟨st, hst, hiff⟩ := verifyBlocks_verifiedBlocks consistent_start 0 (blocksPass_start 3)
  exact ⟨st, hst, hiff.2 (.inl (by decide))⟩

/-- At level 4 the spend in the last block is taken for a bad one, and the node is rolled back. -/
theorem verifyBlocks_start_four : ConsistentDB startEnv startNode startChain ∧
    BlocksPass startEnv startNode 4 (verifiedBlocks 0 startNode.best.nBestHeight startChain)
      (.empty QPRegistry.mainEnv) ∧
    (verifyBlocks startEnv startNode 4 (verifiedBlocks 0 startNode.best.nBestHeight startChain)
      ⟨[], none, .empty QPRegistry.mainEnv⟩).map VerifyState.pmemIndexFork =
        some (some ([startIndex 1, startIndex 0], 1)) :=
  ⟨consistent_start, blocksPass_start 4, by decide +kernel⟩

end Stealth

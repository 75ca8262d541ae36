import Stealth.Chain.Commitment

/-! The Merkle tree of a block in one vector, level above level, and the branches that are read from it. -/

namespace Stealth.CBlock

section Source

variable (hash : Bytes → Uint256)

/-- The inner loop of `BuildMerkleTree`: the level above the `nSize` nodes from `j` on. -/
def pushLevel (j nSize : Nat) (vMerkleTree : List Uint256) : List Uint256 :=
  (List.range ((nSize + 1) / 2)).foldl (fun v k =>
    v ++ [combine hash (v.getD (j + 2 * k) 0) (v.getD (j + min (2 * k + 1) (nSize - 1)) 0)]) vMerkleTree

/-- The outer loop. The size is halved, so that the number of transactions bounds the number of levels. -/
def pushLevels : Nat → Nat → Nat → List Uint256 → List Uint256
  | 0, _, _, vMerkleTree => vMerkleTree
  | fuel + 1, j, nSize, vMerkleTree =>
    if nSize > 1 then pushLevels fuel (j + nSize) ((nSize + 1) / 2) (pushLevel hash j nSize vMerkleTree)
    else vMerkleTree

/-- The vector that `BuildMerkleTree` leaves; it returns the last element, or zero. -/
def vMerkleTree (b : CBlock) : List Uint256 := pushLevels hash b.vtx.length 0 b.vtx.length (b.ids hash)

def readBranch (vMerkleTree : List Uint256) : Nat → Nat → Nat → Nat → List Uint256
  | 0, _, _, _ => []
  | fuel + 1, j, nSize, nIndex =>
    if nSize > 1 then
      vMerkleTree.getD (j + min (nIndex ^^^ 1) (nSize - 1)) 0 ::
        readBranch vMerkleTree fuel (j + nSize) ((nSize + 1) / 2) (nIndex >>> 1)
    else []

/-- `GetMerkleBranch`, with the vector that the block has from before. -/
def getMerkleBranch (b : CBlock) (cached : List Uint256) (nIndex : Nat) : List Uint256 :=
  let v := if cached.isEmpty then b.vMerkleTree hash else cached
  readBranch v b.vtx.length 0 b.vtx.length nIndex

/-- The loop of `CheckMerkleBranch`. The shifts of a negative index keep its sign. -/
def climbBranch (h : Uint256) : List Uint256 → Int → Uint256
  | [], _ => h
  | otherside :: rest, nIndex =>
    climbBranch (if nIndex % 2 = 1 then combine hash otherside h else combine hash h otherside) rest
      (nIndex >>> (1 : Nat))

def checkMerkleBranch (h : Uint256) (vMerkleBranch : List Uint256) (nIndex : Int) : Uint256 :=
  if nIndex = -1 then 0 else climbBranch hash h vMerkleBranch nIndex

end Source

variable {hash : Bytes → Uint256} {b : CBlock}

theorem pushLevel_append (v l : List Uint256) :
    pushLevel hash v.length l.length (v ++ l) = v ++ (l ++ Merkle.level (combine hash) l) := by
  -- after some rounds, the vector has as many nodes of the new level
  have hrounds : ∀ m ≤ (l.length + 1) / 2, (List.range m).foldl (fun w k =>
      w ++ [combine hash (w.getD (v.length + 2 * k) 0) (w.getD (v.length + min (2 * k + 1) (l.length - 1)) 0)])
        (v ++ l) = v ++ (l ++ (Merkle.level (combine hash) l).take m) := by
    intro m
    induction m with
    | zero =>
      intro _
      rw [List.take_zero, List.append_nil]
      rfl
    | succ m ih =>
      intro hm
      have hget : ∀ j < l.length, (v ++ (l ++ (Merkle.level (combine hash) l).take m)).getD (v.length + j) 0 =
          l.getD j 0 := by
        intro j hj
        rw [List.getD_eq_getElem?_getD, List.getElem?_append_right (Nat.le_add_right _ _), Nat.add_sub_cancel_left,
          List.getElem?_append_left hj, List.getD_eq_getElem?_getD]
      have hsome : ∀ j < l.length, l[j]? = some (l.getD j 0) := by
        intro j hj
        rw [List.getD_eq_getElem?_getD, List.getElem?_eq_getElem hj, Option.getD_some]
      have hnode := Merkle.getElem?_level (combine hash) (hsome (2 * m) (by omega))
        (hsome (min (2 * m + 1) (l.length - 1)) (by omega))
      rw [List.range_succ, List.foldl_append, ih (Nat.le_of_succ_le hm), List.foldl_cons, List.foldl_nil,
        hget _ (by omega), hget _ (by omega), List.take_add_one, hnode, List.append_assoc, List.append_assoc]
      rfl
  rw [pushLevel, hrounds _ (Nat.le_refl _), ← Merkle.length_level, List.take_length]

theorem pushLevels_append (hash : Bytes → Uint256) : ∀ (fuel : Nat) (v l : List Uint256),
    pushLevels hash fuel v.length l.length (v ++ l) = v ++ Merkle.rows (combine hash) fuel l
  | 0, v, l => rfl
  | fuel + 1, v, [] => rfl
  | fuel + 1, v, [a] => rfl
  | fuel + 1, v, x :: y :: rest => by
    have hlevels := pushLevels_append hash fuel (v ++ (x :: y :: rest)) (Merkle.level (combine hash) (x :: y :: rest))
    rw [List.length_append, Merkle.length_level] at hlevels
    rw [pushLevels, if_pos (by simp), pushLevel_append, ← List.append_assoc, hlevels, Merkle.rows, List.append_assoc]

theorem length_ids_le (hash : Bytes → Uint256) (b : CBlock) : (b.ids hash).length ≤ b.vtx.length + 1 := by
  rw [length_ids]
  exact Nat.le_succ _

theorem vMerkleTree_eq (b : CBlock) : b.vMerkleTree hash = Merkle.rows (combine hash) b.vtx.length (b.ids hash) := by
  have hlevels := pushLevels_append hash b.vtx.length [] (b.ids hash)
  rw [length_ids] at hlevels
  exact hlevels

theorem getLastD_vMerkleTree (b : CBlock) : (b.vMerkleTree hash).getLastD 0 = b.buildMerkleTree hash := by
  rw [vMerkleTree_eq, List.getLastD_eq_getLast?, Merkle.getLast?_rows (length_ids_le hash b), buildMerkleTree]

theorem readBranch_append (hash : Bytes → Uint256) : ∀ (fuel : Nat) (v l : List Uint256) {i : Nat}, i < l.length →
    readBranch (v ++ Merkle.rows (combine hash) fuel l) fuel v.length l.length i =
      Merkle.branch (combine hash) 0 fuel l i
  | 0, v, l, i, _ => rfl
  | fuel + 1, v, [], i, hi => rfl
  | fuel + 1, v, [a], i, hi => rfl
  | fuel + 1, v, x :: y :: rest, i, hi => by
    have hrest := readBranch_append hash fuel (v ++ (x :: y :: rest)) (Merkle.level (combine hash) (x :: y :: rest))
      (i := i / 2) (by rw [Merkle.length_level]; omega)
    rw [List.length_append, Merkle.length_level, List.append_assoc] at hrest
    have hsibling : min (i ^^^ 1) ((x :: y :: rest).length - 1) < (x :: y :: rest).length := by
      rw [List.length_cons]
      omega
    rw [readBranch, if_pos (by simp), Merkle.branch, Merkle.rows, Nat.shiftRight_one, hrest, List.getD_eq_getElem?_getD,
      List.getElem?_append_right (Nat.le_add_right _ _), Nat.add_sub_cancel_left, List.getElem?_append_left hsibling,
      List.getD_eq_getElem?_getD]
    rfl

theorem climbBranch_eq (h : Uint256) : ∀ (branch : List Uint256) (i : Nat),
    climbBranch hash h branch i = Merkle.climb (combine hash) h branch i := by
  intro branch
  induction branch generalizing h with
  | nil => exact fun _ => rfl
  | cons y ys ih =>
    intro i
    have hshift : (i : Int) >>> (1 : Nat) = (i / 2 : Nat) := Int.shiftRight_eq_div_pow i 1
    have hbit : (i : Int) % 2 = 1 ↔ i % 2 = 1 := by omega
    simp only [climbBranch, Merkle.climb, hshift, ih, hbit]

/-- The branch of a transaction leads from its id to the root that `BuildMerkleTree` returns, whether the
block has its vector already or not. -/
theorem checkMerkleBranch_getMerkleBranch (hash : Bytes → Uint256) (b : CBlock) (cached : List Uint256) (i : Nat)
    (hcached : cached = [] ∨ cached = b.vMerkleTree hash) {tx : CTransaction} (htx : b.vtx[i]? = some tx) :
    checkMerkleBranch hash (tx.getHash hash) (b.getMerkleBranch hash cached i) i = (b.vMerkleTree hash).getLastD 0 := by
  have hbranch : b.getMerkleBranch hash cached i = Merkle.branch (combine hash) 0 b.vtx.length (b.ids hash) i := by
    have hv : (if cached.isEmpty then b.vMerkleTree hash else cached) = b.vMerkleTree hash := by
      rcases hcached with rfl | rfl
      · rfl
      · exact ite_self _
    have hlt : i < (b.ids hash).length := by
      rw [length_ids]
      exact (List.getElem?_eq_some_iff.1 htx).1
    have hread := readBranch_append hash b.vtx.length [] (b.ids hash) hlt
    rw [length_ids] at hread
    rw [getMerkleBranch, hv, vMerkleTree_eq]
    exact hread
  have hid : (b.ids hash)[i]? = some (tx.getHash hash) := by
    rw [ids, List.getElem?_map, htx]
    rfl
  have hroot := Merkle.root_eq_climb (combine hash) 0 (length_ids_le hash b) hid
  rw [getLastD_vMerkleTree, buildMerkleTree, hroot, Option.getD_some, checkMerkleBranch, if_neg (by omega), hbranch,
    climbBranch_eq]

/-- The pairs that are hashed in the trees of two blocks are told apart by their hashes, and no id is the
hash of a pair. -/
structure ToldApart (hash : Bytes → Uint256) (a b : CBlock) : Prop where
  inj : ∀ p ∈ a.treePairs hash ++ b.treePairs hash, ∀ q ∈ a.treePairs hash ++ b.treePairs hash,
    combine hash p.1 p.2 = combine hash q.1 q.2 → p = q
  apart : ∀ x ∈ a.ids hash ++ b.ids hash, ∀ p ∈ a.treePairs hash ++ b.treePairs hash, x ≠ combine hash p.1 p.2

theorem ToldApart.ids_eq {a b : CBlock} (h : ToldApart hash a b) (hempty : a.vtx = [] ↔ b.vtx = [])
    (ha : (a.ids hash).Nodup) (hb : (b.ids hash).Nodup) (hroot : a.buildMerkleTree hash = b.buildMerkleTree hash) :
    a.ids hash = b.ids hash := by
  have hsome : ∀ {c : CBlock}, c.vtx ≠ [] →
      Merkle.root (combine hash) c.vtx.length (c.ids hash) = some (c.buildMerkleTree hash) := by
    intro c hc
    cases hroot : Merkle.root (combine hash) c.vtx.length (c.ids hash) with
    | none =>
      have hnil := Merkle.eq_nil_of_root_eq_none (combine hash) hroot
      exact absurd (List.map_eq_nil_iff.1 hnil) hc
    | some x => rw [buildMerkleTree, hroot, Option.getD_some]
  by_cases hnil : a.vtx = []
  · rw [ids, ids, hnil, hempty.1 hnil]
  · refine Merkle.eq_of_root_eq (P := fun x y => (x, y) ∈ a.treePairs hash ++ b.treePairs hash)
      (L := fun x => x ∈ a.ids hash ++ b.ids hash) (h := 0) ?_ ?_ (length_ids_le hash a) (length_ids_le hash b) ?_ ?_ ha hb ?_ ?_
      (hsome hnil) (hroot ▸ hsome fun hb => hnil (hempty.2 hb))
    · intro x y z w hxy hzw heq
      exact Prod.mk.inj (h.inj (x, y) hxy (z, w) hzw heq)
    · intro x y z hx hyz
      exact h.apart x hx (y, z) hyz
    · exact fun x hx => .leaf (List.mem_append_left _ hx)
    · exact fun x hx => .leaf (List.mem_append_right _ hx)
    · exact fun p hp => List.mem_append_left _ hp
    · exact fun p hp => List.mem_append_right _ hp

/-- Lists of ids without duplicates are told apart by their Merkle roots, if both are empty or none is. So
accepted blocks with one Merkle root have the same ids. -/
theorem buildMerkleTree_commits {hash : Bytes → Uint256} {a b : CBlock} (h : ToldApart hash a b)
    (hempty : a.vtx = [] ↔ b.vtx = []) :
    ((a.ids hash).Nodup → (b.ids hash).Nodup → a.buildMerkleTree hash = b.buildMerkleTree hash →
        a.ids hash = b.ids hash) ∧
      ∀ {ctx ctx' : CheckBlockCtx} {fPOW fSig fQPoS fPOW' fSig' fQPoS' : Bool} {pBest pPrev pBest' pPrev' : CBlockIndex}
        {r r' : QPRegistry}, ctx.hash = hash → ctx'.hash = hash →
        (ctx.checkBlock fPOW true fSig fQPoS pBest pPrev r a).2.isSome →
        (ctx'.checkBlock fPOW' true fSig' fQPoS' pBest' pPrev' r' b).2.isSome →
        a.hashMerkleRoot = b.hashMerkleRoot → a.ids hash = b.ids hash := by
  refine ⟨h.ids_eq hempty, ?_⟩
  rintro ctx ctx' _ _ _ _ _ _ _ _ _ _ _ _ rfl hhash ha hb hroot
  obtain ⟨haroot, hanodup, -⟩ := CheckBlockCtx.of_checkBlock ha
  obtain ⟨hbroot, hbnodup, -⟩ := CheckBlockCtx.of_checkBlock hb
  rw [hhash] at hbroot hbnodup
  exact h.ids_eq hempty hanodup hbnodup (haroot.symm.trans (hroot.trans hbroot))

def lengthHash (s : Bytes) : Uint256 := BitVec.ofNat 256 s.length

def outputsTx (n : Nat) : CTransaction where
  nVersion := 1
  nTime := 0
  vin := []
  vout := List.replicate n ⟨0, []⟩
  nLockTime := 0

def outputsBlock (ns : List Nat) : CBlock where
  nVersion := 1
  hashPrevBlock := 0
  hashMerkleRoot := 0
  nTime := 0
  nBits := 0
  nNonce := 0
  nHeight := 0
  nStakerID := 0
  vtx := ns.map outputsTx
  vchBlockSig := []

theorem checkMerkleBranch_third : checkMerkleBranch lengthHash ((outputsTx 2).getHash lengthHash)
        ((outputsBlock [0, 1, 2]).getMerkleBranch lengthHash [] 2) 2 =
      ((outputsBlock [0, 1, 2]).vMerkleTree lengthHash).getLastD 0 :=
  checkMerkleBranch_getMerkleBranch lengthHash (outputsBlock [0, 1, 2]) [] 2 (.inl rfl) rfl

def outputsBlockAgain : CBlock := { outputsBlock [0, 1] with nNonce := 1 }

theorem toldApart_outputsBlock : ToldApart lengthHash (outputsBlock [0, 1]) outputsBlockAgain := by
  have hpairs : (outputsBlock [0, 1]).treePairs lengthHash ++ outputsBlockAgain.treePairs lengthHash =
      List.replicate 2 ((outputsTx 0).getHash lengthHash, (outputsTx 1).getHash lengthHash) := rfl
  refine ⟨?_, ?_⟩
  · rw [hpairs]
    intro p hp q hq _
    rw [List.eq_of_mem_replicate hp, List.eq_of_mem_replicate hq]
  · rw [hpairs]
    intro x hx p hp
    rw [List.eq_of_mem_replicate hp]
    have hids : ((outputsBlock [0, 1]).ids lengthHash ++ outputsBlockAgain.ids lengthHash).all (fun x =>
        x != combine lengthHash ((outputsTx 0).getHash lengthHash) ((outputsTx 1).getHash lengthHash)) = true := by
      decide +kernel
    exact bne_iff_ne.1 (List.all_eq_true.1 hids x hx)

theorem buildMerkleTree_commits_outputsBlock : outputsBlock [0, 1] ≠ outputsBlockAgain ∧
    (outputsBlock [0, 1]).ids lengthHash = outputsBlockAgain.ids lengthHash := by
  have hnodup : ((outputsBlock [0, 1]).ids lengthHash).Nodup := by decide +kernel
  exact ⟨by decide, (buildMerkleTree_commits toldApart_outputsBlock ⟨nofun, nofun⟩).1 hnodup hnodup rfl⟩

/-- The root over one transaction with the id zero is that of no transactions. -/
theorem buildMerkleTree_zero : ToldApart (fun _ => 0) (outputsBlock []) (outputsBlock [0]) ∧
    ((outputsBlock []).ids fun _ => 0).Nodup ∧ ((outputsBlock [0]).ids fun _ => 0).Nodup ∧
    ((outputsBlock []).buildMerkleTree fun _ => 0) = ((outputsBlock [0]).buildMerkleTree fun _ => 0) ∧
    ((outputsBlock []).ids fun _ => 0) ≠ ((outputsBlock [0]).ids fun _ => 0) := by
  refine ⟨⟨fun p hp => ?_, fun x _ p hp => ?_⟩, List.nodup_nil, List.nodup_singleton _, rfl, ?_⟩
  · cases hp
  · cases hp
  · exact (List.cons_ne_nil _ _).symm

end Stealth.CBlock

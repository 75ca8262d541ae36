import Mathlib.Algebra.Order.Group.Nat
import Stealth.Chain.CheckBlock
import Stealth.Qpos.Solo

/-!
What the hash of an accepted block fixes: its transactions up to the input scripts that an id leaves out.
-/

namespace Stealth

theorem length_le_serializeVector {α : Type} {ser : α → Bytes} {v : List α}
    (h : ∀ a ∈ v, 1 ≤ (ser a).length) : v.length ≤ (serializeVector ser v).length := by
  have hflat : v.length ≤ (v.flatMap ser).length := by
    rw [List.length_flatMap]
    simpa using List.length_le_sum_of_one_le (v.map fun a => (ser a).length) (by simpa using h)
  rw [serializeVector, List.length_append]
  omega

theorem length_le_serializeVector_of_mem {α : Type} {ser : α → Bytes} {v : List α} {a : α}
    (h : a ∈ v) : (ser a).length ≤ (serializeVector ser v).length := by
  have hmem : (ser a).length ∈ v.map fun a => (ser a).length := List.mem_map.2 ⟨a, h, rfl⟩
  have hle := List.le_sum_of_mem hmem
  rw [serializeVector, List.length_append, List.length_flatMap]
  omega

theorem length_le_serializeScript (s : CScript) : s.length ≤ (serializeScript s).length :=
  length_le_serializeVector (by simp)

theorem CTransaction.sized_of_length {tx : CTransaction} (h : tx.serialize.length < 2 ^ 64) : tx.Sized := by
  have hvin : (serializeVector CTxIn.serialize tx.vin).length ≤ tx.serialize.length := by
    simp only [CTransaction.serialize, List.length_append]
    omega
  have hvout : (serializeVector CTxOut.serialize tx.vout).length ≤ tx.serialize.length := by
    simp only [CTransaction.serialize, List.length_append]
    omega
  constructor
  · have hlen := @length_le_serializeVector _ CTxIn.serialize tx.vin fun txin _ => by
      simp only [CTxIn.serialize, COutPoint.serialize, serializeUint256, List.length_append,
        Encoding.leBytes_length]
      omega
    omega
  · intro txin hmem
    have hlen := @length_le_serializeVector_of_mem _ CTxIn.serialize _ _ hmem
    have hscript := length_le_serializeScript txin.scriptSig
    simp only [CTxIn.serialize, List.length_append] at hlen
    omega
  · have hlen := @length_le_serializeVector _ CTxOut.serialize tx.vout fun txout _ => by
      simp only [CTxOut.serialize, serializeInt64, List.length_append, Encoding.leBytes_length]
      omega
    omega
  · intro txout hmem
    have hlen := @length_le_serializeVector_of_mem _ CTxOut.serialize _ _ hmem
    have hscript := length_le_serializeScript txout.scriptPubKey
    simp only [CTxOut.serialize, List.length_append] at hlen
    omega

theorem List.map_eq_map_of_map_eq_map {α β γ : Type} {f : α → β} {g : α → γ} :
    ∀ {l l' : List α}, (∀ a ∈ l, ∀ b ∈ l', f a = f b → g a = g b) → l.map f = l'.map f →
      l.map g = l'.map g
  | [], [], _, _ => rfl
  | a :: l, b :: l', h, heq => by
    obtain ⟨hhead, htail⟩ := List.cons.inj heq
    rw [List.map_cons, List.map_cons, h a (by simp) b (by simp) hhead,
      List.map_eq_map_of_map_eq_map (fun x hx y hy => h x (by simp [hx]) y (by simp [hy])) htail]

/-- Hashes without collisions on the strings at hand: ids in `L`, nodes of trees in `N` and headers in
`H`. No string is hashed both as a transaction and as a node, and no hash is zero. -/
structure CollisionFree (hash hash9 : Bytes → Uint256) (L N H : Set Bytes) : Prop where
  inj : Set.InjOn hash (L ∪ N)
  apart : ∀ s ∈ L, s ∉ N
  nonzero : ∀ s ∈ L ∪ N, hash s ≠ 0
  inj9 : Set.InjOn hash9 H

/-- The strings that are hashed for a block. -/
structure CBlock.HashedIn (fTestNet : Bool) (hash hash9 : Bytes → Uint256) (hashOfNftHashes : Uint256)
    (L N H : Set Bytes) (b : CBlock) : Prop where
  ids : ∀ tx ∈ b.vtx, tx.idForm.serialize ∈ L
  nodes : ∀ p ∈ b.treePairs hash, CBlock.nodeBytes p ∈ N
  header : b.qposHeader ∈ H
  hashed : b.hashed fTestNet hash9 hashOfNftHashes ∈ H

namespace CBlock

theorem nodeBytes_inj {p q : Uint256 × Uint256} (h : nodeBytes p = nodeBytes q) : p = q := by
  obtain ⟨h₁, h₂⟩ := splitsOn_serializeUint256 _ _ _ _ trivial trivial h
  exact Prod.ext h₁ (splitsOn_serializeUint256.eq trivial trivial h₂)

section

variable {fTestNet : Bool} {hash hash9 : Bytes → Uint256} {hashOfNftHashes : Uint256}
  {L N H : Set Bytes} {a b : CBlock}

theorem hashed_cases (fTestNet : Bool) (hash9 : Bytes → Uint256) (hashOfNftHashes : Uint256) (b : CBlock) :
    b.hashed fTestNet hash9 hashOfNftHashes =
        serializeUint256 hashOfNftHashes ++ serializeUint256 (hash9 b.qposHeader) ∨
      b.hashed fTestNet hash9 hashOfNftHashes = b.genesisHeader ∨
      b.hashed fTestNet hash9 hashOfNftHashes = b.qposHeader := by
  rw [hashed]
  split
  · exact .inl rfl
  · split
    · exact .inr (.inl rfl)
    · exact .inr (.inr rfl)

theorem sameHeader_of_getHash_eq (hfree : CollisionFree hash hash9 L N H)
    (ha : a.HashedIn fTestNet hash hash9 hashOfNftHashes L N H)
    (hb : b.HashedIn fTestNet hash hash9 hashOfNftHashes L N H)
    (heq : a.getHash fTestNet hash9 hashOfNftHashes = b.getHash fTestNet hash9 hashOfNftHashes) :
    SameHeader a b := by
  have hstr := hfree.inj9 ha.hashed hb.hashed heq
  rcases hashed_cases fTestNet hash9 hashOfNftHashes a with h | h | h <;>
    rcases hashed_cases fTestNet hash9 hashOfNftHashes b with h' | h' | h' <;> rw [h, h'] at hstr
  case inl.inl =>
    have hq := splitsOn_serializeUint256.eq trivial trivial (List.append_cancel_left hstr)
    exact sameHeader_of_qposHeader_eq (hfree.inj9 ha.header hb.header hq)
  case inr.inl.inr.inl => exact sameHeader_of_genesisHeader_eq hstr
  case inr.inr.inr.inr => exact sameHeader_of_qposHeader_eq hstr
  -- different forms have different lengths
  all_goals
    have hlen := congrArg List.length hstr
    simp [length_genesisHeader, length_qposHeader, serializeUint256] at hlen

theorem at_ids (hb : b.HashedIn fTestNet hash hash9 hashOfNftHashes L N H) : ∀ x ∈ b.ids hash,
    Merkle.At (combine hash) (fun x y => nodeBytes (x, y) ∈ N) (fun x => ∃ s ∈ L, x = hash s) 0 x := by
  intro x hx
  obtain ⟨tx, htx, rfl⟩ := List.mem_map.1 hx
  exact .leaf ⟨_, hb.ids tx htx, rfl⟩

theorem length_ids (hash : Bytes → Uint256) (b : CBlock) : (b.ids hash).length = b.vtx.length :=
  List.length_map _

theorem root_cases (hfree : CollisionFree hash hash9 L N H)
    (hb : b.HashedIn fTestNet hash hash9 hashOfNftHashes L N H) : b.vtx = [] ∧ b.buildMerkleTree hash = 0 ∨
      Merkle.root (combine hash) b.vtx.length (b.ids hash) = some (b.buildMerkleTree hash) ∧
        b.buildMerkleTree hash ≠ 0 := by
  cases hroot : Merkle.root (combine hash) b.vtx.length (b.ids hash) with
  | none =>
    have hnil := Merkle.eq_nil_of_root_eq_none (combine hash) hroot
    exact .inl ⟨List.map_eq_nil_iff.1 hnil, by rw [buildMerkleTree, hroot]; rfl⟩
  | some x =>
    have hx : b.buildMerkleTree hash = x := by rw [buildMerkleTree, hroot]; rfl
    obtain ⟨k, hk, -⟩ := Merkle.at_root (by rw [length_ids]; omega) (at_ids hb)
      (fun p hp => hb.nodes p hp) hroot
    rw [Nat.zero_add] at hk
    rw [hx]
    refine .inr ⟨rfl, ?_⟩
    cases hk with
    | leaf hleaf =>
      obtain ⟨s, hs, rfl⟩ := hleaf
      exact hfree.nonzero s (.inl hs)
    | node _ _ hP => exact hfree.nonzero _ (.inr hP)

theorem ids_eq_of_root_eq (hfree : CollisionFree hash hash9 L N H)
    (ha : a.HashedIn fTestNet hash hash9 hashOfNftHashes L N H)
    (hb : b.HashedIn fTestNet hash hash9 hashOfNftHashes L N H)
    (hanodup : (a.ids hash).Nodup) (hbnodup : (b.ids hash).Nodup)
    (heq : a.buildMerkleTree hash = b.buildMerkleTree hash) : a.ids hash = b.ids hash := by
  have hcombine : ∀ {x y z w : Uint256}, nodeBytes (x, y) ∈ N → nodeBytes (z, w) ∈ N →
      combine hash x y = combine hash z w → x = z ∧ y = w := by
    intro x y z w hxy hzw h
    have hpair := nodeBytes_inj (hfree.inj (.inr hxy) (.inr hzw) h)
    exact ⟨congrArg Prod.fst hpair, congrArg Prod.snd hpair⟩
  have hleaf : ∀ {x y z : Uint256}, (∃ s ∈ L, x = hash s) → nodeBytes (y, z) ∈ N →
      x ≠ combine hash y z := by
    rintro x y z ⟨s, hs, rfl⟩ hyz h
    exact hfree.apart s hs (hfree.inj (.inl hs) (.inr hyz) h ▸ hyz)
  rcases root_cases hfree ha with ⟨hanil, hazero⟩ | ⟨haroot, hane⟩ <;>
    rcases root_cases hfree hb with ⟨hbnil, hbzero⟩ | ⟨hbroot, hbne⟩
  · rw [ids, ids, hanil, hbnil]
  · exact absurd (heq.symm.trans hazero) hbne
  · exact absurd (heq.trans hbzero) hane
  · exact Merkle.eq_of_root_eq hcombine hleaf (by rw [length_ids]; omega) (by rw [length_ids]; omega)
      (at_ids ha) (at_ids hb) hanodup hbnodup (fun p hp => ha.nodes p hp) (fun p hp => hb.nodes p hp)
      haroot (heq ▸ hbroot)

end

end CBlock

theorem CheckBlockCtx.of_checkBlock {ctx : CheckBlockCtx} {fCheckPOW fCheckSig fCheckQPoS : Bool}
    {pindexBest pindexPrev : CBlockIndex} {r : QPRegistry} {b : CBlock}
    (h : (ctx.checkBlock fCheckPOW true fCheckSig fCheckQPoS pindexBest pindexPrev r b).2.isSome) :
    b.hashMerkleRoot = b.buildMerkleTree ctx.hash ∧ (b.ids ctx.hash).Nodup ∧
      ∀ tx ∈ b.vtx, tx.Sized ∧ tx.vin ≠ [] := by
  have hvalid := contents_of_checkBlock h
  simp only [contentsAreValid, transactionsAreValid, merkleRootIsValid, checkTransaction,
    Bool.and_eq_true, List.all_eq_true, decide_eq_true_eq, Bool.not_true, Bool.false_or,
    beq_iff_eq] at hvalid
  obtain ⟨⟨⟨-, ⟨htxs, hnodup⟩, -⟩, hroot⟩, -⟩ := hvalid
  refine ⟨hroot, hnodup, fun tx htx => ?_⟩
  obtain ⟨⟨⟨⟨⟨⟨hvin, -⟩, hsize⟩, -⟩, -⟩, -⟩, -⟩ := htxs tx htx
  refine ⟨CTransaction.sized_of_length (Nat.lt_of_le_of_lt hsize (by decide)), ?_⟩
  simpa using hvin

/-- Accepted blocks with one hash have the same header and, up to the parts that ids leave out, the
same transactions. The two may be checked by different nodes at different times. -/
theorem transactions_eq_of_getHash_eq {ctx ctx' : CheckBlockCtx} {L N H : Set Bytes}
    (hnet : ctx'.env.fTestNet = ctx.env.fTestNet) (hhash : ctx'.hash = ctx.hash)
    (hhash9 : ctx'.hash9 = ctx.hash9) (hnft : ctx'.hashOfNftHashes = ctx.hashOfNftHashes)
    (hfree : CollisionFree ctx.hash ctx.hash9 L N H) {a b : CBlock}
    (ha : a.HashedIn ctx.env.fTestNet ctx.hash ctx.hash9 ctx.hashOfNftHashes L N H)
    (hb : b.HashedIn ctx.env.fTestNet ctx.hash ctx.hash9 ctx.hashOfNftHashes L N H)
    {pBest pPrev pBest' pPrev' : CBlockIndex} {r r' : QPRegistry}
    (haccept : (ctx.checkBlock true true true true pBest pPrev r a).2.isSome)
    (haccept' : (ctx'.checkBlock true true true true pBest' pPrev' r' b).2.isSome)
    (heq : ctx.blockHash a = ctx'.blockHash b) : CBlock.SameHeader a b ∧
      a.vtx.map (fun tx => tx.idForm.wire) = b.vtx.map fun tx => tx.idForm.wire := by
  obtain ⟨haroot, hanodup, hasized⟩ := CheckBlockCtx.of_checkBlock haccept
  obtain ⟨hbroot, hbnodup, hbsized⟩ := CheckBlockCtx.of_checkBlock haccept'
  rw [hhash] at hbroot hbnodup
  rw [CheckBlockCtx.blockHash, CheckBlockCtx.blockHash, hnet, hhash9, hnft] at heq
  have hheader := CBlock.sameHeader_of_getHash_eq hfree ha hb heq
  refine ⟨hheader, ?_⟩
  have hids := CBlock.ids_eq_of_root_eq hfree ha hb hanodup hbnodup
    (haroot.symm.trans (hheader.hashMerkleRoot.trans hbroot))
  refine List.map_eq_map_of_map_eq_map (fun tx htx tx' htx' h => ?_) hids
  exact (getHash_eq_iff hfree.inj (hasized tx htx).1 (hbsized tx' htx').1 (.inl (ha.ids tx htx))
    (.inl (hb.ids tx' htx'))).1 h

def spendCtx : CheckBlockCtx where
  env := QPRegistry.mainEnv
  now := 1422160502
  nBestHeight := 3695100
  blockOf _ := none
  isInMainChain _ := none
  hash := rollingHash
  txdb _ := none
  mempool := ∅
  hash9 := rollingHash
  hashOfNftHashes := 0
  checkProofOfWork _ _ := false
  verify _ _ _ := true
  checkMinerSignature _ := false
  legacySigOpCount _ := 0

/-- A payment to a key hash, spending an output under the given script. -/
def spendTx (scriptSig : CScript) : CTransaction where
  nVersion := 4
  nTime := 0
  vin := [⟨⟨7, 0⟩, scriptSig, 0xffffffff⟩]
  vout := [⟨1000000, opDup :: opHash160 :: 20 :: (List.replicate 20 9 ++ [opEqualVerify, opCheckSig])⟩]
  nLockTime := 0

def spendBlock (scriptSig : CScript) : CBlock where
  nVersion := 8
  hashPrevBlock := 3695101
  hashMerkleRoot := rollingHash (spendTx []).serialize
  nTime := 1422160502
  nBits := 0
  nNonce := 0
  nHeight := 3695101
  nStakerID := 1
  vtx := [spendTx scriptSig]
  vchBlockSig := [1]

theorem collisionFree_spend :
    CollisionFree rollingHash rollingHash {(spendTx []).serialize} ∅ {(spendBlock []).qposHeader} where
  inj := by simp
  apart := by simp
  nonzero := by
    rintro s (rfl | h)
    · decide +kernel
    · exact absurd h (Set.notMem_empty s)
  inj9 := Set.injOn_singleton _ _

theorem hashedIn_spend (scriptSig : CScript) : (spendBlock scriptSig).HashedIn false rollingHash
    rollingHash 0 {(spendTx []).serialize} ∅ {(spendBlock []).qposHeader} where
  ids := by simp [spendBlock, spendTx, CTransaction.idForm, CTransaction.hasTimestamp,
    CTransaction.notxtimeVersion, CTransaction.isCoinBase, COutPoint.isNull, CTransaction.blankSigs]
  nodes := by simp [CBlock.treePairs, CBlock.ids, spendBlock, Merkle.allPairs]
  header := rfl
  hashed := rfl

/-- Whether a node with the registry accepts the block under the script. -/
def acceptsSpend (r : QPRegistry) (scriptSig : CScript) : Bool :=
  (spendCtx.checkBlock true true true true (QPRegistry.soloBlock 3695100) (QPRegistry.soloBlock 3695100)
    r (spendBlock scriptSig)).2.isSome

theorem acceptsSpend_both : ∃ r, QPRegistry.replay QPRegistry.mainEnv QPRegistry.blockClock
      (QPRegistry.soloChain 3695100) = some r ∧
    acceptsSpend r [] = true ∧ acceptsSpend r [0x51] = true :=
  QPRegistry.exists_replay_soloQpos (by decide +kernel)

theorem transactions_eq_of_getHash_eq_spend : CBlock.SameHeader (spendBlock []) (spendBlock [0x51]) ∧
    (spendBlock []).vtx.map (fun tx => tx.idForm.wire) =
      (spendBlock [0x51]).vtx.map fun tx => tx.idForm.wire := by
  obtain ⟨r, -, h, h'⟩ := acceptsSpend_both
  exact @transactions_eq_of_getHash_eq spendCtx spendCtx _ _ _ rfl rfl rfl rfl
    collisionFree_spend _ _ (hashedIn_spend []) (hashedIn_spend [0x51]) _ _ _ _ _ _ h h' rfl

/-- A node accepts two blocks of one hash whose transactions differ in an input script, though no two
strings that are hashed for them collide. -/
theorem getHash_altered_copy : (∃ L N H, CollisionFree spendCtx.hash spendCtx.hash9 L N H ∧
      ∀ scriptSig, (spendBlock scriptSig).HashedIn spendCtx.env.fTestNet spendCtx.hash spendCtx.hash9
        spendCtx.hashOfNftHashes L N H) ∧
    (∃ r, QPRegistry.replay QPRegistry.mainEnv QPRegistry.blockClock (QPRegistry.soloChain 3695100) =
        some r ∧ acceptsSpend r [] = true ∧ acceptsSpend r [0x51] = true) ∧
    spendCtx.blockHash (spendBlock []) = spendCtx.blockHash (spendBlock [0x51]) ∧
    (spendBlock []).isQuantumProofOfStake = true ∧ (spendBlock [0x51]).isQuantumProofOfStake = true ∧
    (spendBlock []).vtx ≠ (spendBlock [0x51]).vtx :=
  ⟨⟨_, _, _, collisionFree_spend, hashedIn_spend⟩, acceptsSpend_both, rfl, by decide, by decide,
    by decide⟩

end Stealth

import Stealth.Qpos.Position

/-!
`RewindRegistry`: read a snapshot of the branch of a block and replay the blocks above it. Snapshots are
stored by height, so the search meets those of other branches.
-/

namespace Stealth

variable {db : SnapshotDB} {p b : CBlockIndex} {ps : List CBlockIndex} {env : QPEnv} {c : Chain}
  {x : QPRegistry × SnapshotDB}

theorem Linked.suffix : ∀ {pre c : Chain}, Linked (pre ++ c) → Linked c
  | [], _, h => h
  | [_], [], _ => trivial
  | [_], _ :: _, h => h.2
  | _ :: p :: pre, _, h => @Linked.suffix (p :: pre) _ h.2

theorem Linked.head_eq : ∀ {pre : Chain} {p : CBlockIndex} {rest : Chain}, Linked (pre ++ p :: rest) →
    ∀ b ∈ pre.head?, b.nHeight = p.nHeight + pre.length
  | [], _, _, _ => by simp
  | [b], p, rest, h => by
    simp only [List.head?_cons, Option.mem_def, Option.some.injEq, forall_eq', List.length_singleton]
    exact h.1
  | b :: q :: pre, p, rest, h => by
    have ih := @Linked.head_eq (q :: pre) p rest h.2 q rfl
    have hb : b.nHeight = q.nHeight + 1 := h.1
    simp only [List.head?_cons, Option.mem_def, Option.some.injEq, forall_eq', List.length_cons] at ih ⊢
    omega

theorem Linked.lt_of_mem : ∀ {pre : Chain} {p : CBlockIndex} {rest : Chain}, Linked (pre ++ p :: rest) →
    ∀ b ∈ pre, p.nHeight < b.nHeight
  | b :: pre, p, rest, h, b', hb' => by
    rcases List.mem_cons.1 hb' with rfl | hmem
    · have hhead := h.head_eq b' rfl
      simp only [List.length_cons] at hhead
      omega
    · exact Linked.lt_of_mem (@Linked.suffix [b] _ h) b' hmem

theorem Linked.exists_height : ∀ {b : CBlockIndex} {rest : Chain} {n : Int}, Linked (b :: rest) → 0 ≤ n →
    n ≤ b.nHeight → ∃ pre p below, b :: rest = pre ++ p :: below ∧ p.nHeight = n
  | b, [], n, h, hn, hb => by
    have hzero : b.nHeight = 0 := h
    exact ⟨[], b, [], rfl, by omega⟩
  | b, p :: rest, n, h, hn, hb => by
    have hheight : b.nHeight = p.nHeight + 1 := h.1
    by_cases heq : b.nHeight = n
    · exact ⟨[], b, p :: rest, rfl, heq⟩
    · obtain ⟨pre, q, below, heq, hq⟩ := Linked.exists_height h.2 hn (by omega)
      exact ⟨b :: pre, q, below, by rw [heq]; rfl, hq⟩

namespace QPRegistry

/-- `ReadSnapshot`. A registry of another height is refused after it was read. -/
def readSnapshot (db : SnapshotDB) (nHeight : Int) (r : QPRegistry) : QPRegistry × Bool :=
  match db[nHeight]? with
  | none => (r, false)
  | some s =>
    let r' := r.unserialize s.serialize
    (r', r'.nBlockHeight == nHeight)

/-- The loops that step back from a block to a snapshot of its branch. `fFork` tells that a block of the
main chain was passed. The search fails at the end of the chain. -/
def findSnapshot (env : QPEnv) (inMainChain : CBlockIndex → Bool) (db : SnapshotDB)
    (nRewindToHeight : Int) : Chain → Int → Bool → QPRegistry → Except QPRegistry QPRegistry
  | b :: p :: rest, nSnapHeight, fFork, r =>
    let fFork := fFork || inMainChain b
    let nSnapHeight := nSnapHeight - 1
    if getFork env.fTestNet nSnapHeight < .purchase then .ok (r.setNull env)
    else if nSnapHeight % BLOCKS_PER_SNAPSHOT = 0 ∧ fFork then
      if rest = [] then .error r
      else
        let (r, fRead) := r.readSnapshot db nSnapHeight
        if fRead && r.nBlockHeight != nRewindToHeight && r.hashBlock == p.hashBlock then .ok r
        else findSnapshot env inMainChain db nRewindToHeight (p :: rest) nSnapHeight fFork r
    else findSnapshot env inMainChain db nRewindToHeight (p :: rest) nSnapHeight fFork r
  | _, _, _, r => .error r

/-- The blocks down to the block of the registry or to the last one before purchases, newest first, with
the block and the height where the walk ends. -/
def collectReplay (env : QPEnv) (hashRegistry : Uint256) :
    Chain → Int → Option (List Chain × CBlockIndex × Int)
  | [], _ => none
  | b :: rest, nReplayHeight =>
    if b.hashBlock = hashRegistry ∨ getFork env.fTestNet nReplayHeight < .purchase then
      some ([], b, nReplayHeight)
    else if rest = [] then none
    else
      (collectReplay env hashRegistry rest (nReplayHeight - 1)).map fun (vreplay, last, n) =>
        ((b :: rest) :: vreplay, last, n)

def replayOn (env : QPEnv) (now : CBlockIndex → Int) (nSnapshotType : SnapshotType)
    (x : QPRegistry × SnapshotDB) : Chain → Except (QPRegistry × SnapshotDB) (QPRegistry × SnapshotDB)
  | [] => .error x
  | b :: rest =>
    match x.1.updateOnNewBlock env (now b) nSnapshotType false (rest.head?.getD b) b x.2 with
    | (db, r, .accepted) => .ok (r, db)
    | (db, r, _) => .error (r, db)

/-- `RewindRegistry`: rewind to a snapshot below one block and replay up to another. -/
def rewindRegistry (env : QPEnv) (now : CBlockIndex → Int) (inMainChain : CBlockIndex → Bool)
    (rewindTo replayTo : Chain) (nSnapshotType : SnapshotType) (db : SnapshotDB) (r : QPRegistry) :
    Except (QPRegistry × SnapshotDB) (QPRegistry × SnapshotDB) :=
  match rewindTo, replayTo with
  | b :: rest, t :: below =>
    if getFork env.fTestNet b.nHeight < .purchase then .ok (r.setNull env, db)
    else if rest = [] then .error (r, db)
    else
      match findSnapshot env inMainChain db b.nHeight (b :: rest) b.nHeight false r with
      | .error r => .error (r, db)
      | .ok r =>
        if below = [] then .error (r, db)
        else
          match collectReplay env r.hashBlock below (t.nHeight - 1) with
          | none => .error (r, db)
          | some (vreplay, last, n) =>
            if n ≠ last.nHeight then .error (r, db)
            else ((t :: below) :: vreplay).reverse.foldlM (replayOn env now nSnapshotType) (r, db)
  | _, _ => .error (r, db)

/-- A path in the tree of blocks: heights count up, hashes identify blocks, and the hash of the genesis
block is the one of height 0. -/
structure IsBranch (env : QPEnv) (c : Chain) : Prop where
  linked : Linked c
  unique : ∀ b ∈ c, ∀ b' ∈ c, b.hashBlock = b'.hashBlock → b = b'
  genesis : ∀ b ∈ c, b.hashBlock = env.hashGenesisBlock → b.nHeight = 0

/-- The blocks of a branch for which the search tries snapshots, newest first: every height that is due,
from purchases on and below a block of the main chain. -/
def snapshotBlocks (env : QPEnv) (inMainChain : CBlockIndex → Bool) : Chain → Bool → List CBlockIndex
  | b :: p :: rest, fFork =>
    if getFork env.fTestNet p.nHeight < .purchase then []
    else if p.nHeight % BLOCKS_PER_SNAPSHOT = 0 ∧ (fFork || inMainChain b) then
      p :: snapshotBlocks env inMainChain (p :: rest) (fFork || inMainChain b)
    else snapshotBlocks env inMainChain (p :: rest) (fFork || inMainChain b)
  | _, _ => []

def SnapshotOf (db : SnapshotDB) (p : CBlockIndex) (s : QPRegistry) : Prop :=
  db[p.nHeight]? = some s ∧ s.nBlockHeight = p.nHeight ∧ s.hashBlock = p.hashBlock

def HasSnapshot (db : SnapshotDB) (ps : List CBlockIndex) : Prop := ∃ p ∈ ps, ∃ s, SnapshotOf db p s

def ownersRead (db : SnapshotDB) (o : Map Nat Nat × Map Nat Nat) (ps : List CBlockIndex) :
    Map Nat Nat × Map Nat Nat :=
  ps.foldl (fun o p => (db[p.nHeight]?.map owners).getD o) o

theorem hasSnapshot_cons : HasSnapshot db (p :: ps) ↔ (∃ s, SnapshotOf db p s) ∨ HasSnapshot db ps := by
  simp only [HasSnapshot, List.mem_cons, exists_eq_or_imp]

/-- The search ends at a snapshot of the branch if there is one, and otherwise with an empty registry
that has the owners of the last read. -/
structure SearchResult (env : QPEnv) (db : SnapshotDB) (c : Chain) (ps : List CBlockIndex)
    (o : Map Nat Nat × Map Nat Nat) (r : QPRegistry) : Prop where
  hit : HasSnapshot db ps → ∃ pre p rest s, c = pre ++ p :: rest ∧ pre ≠ [] ∧
    getPurchaseStart env.fTestNet ≤ p.nHeight ∧ SnapshotOf db p s ∧ SameData r s
  miss : ¬ HasSnapshot db ps → ∃ q : QPRegistry, q.owners = ownersRead db o ps ∧ r = q.setNull env

theorem SearchResult.cons {o : Map Nat Nat × Map Nat Nat} {r : QPRegistry}
    (h : SearchResult env db c ps o r) : SearchResult env db (b :: c) ps o r where
  hit hs := by
    obtain ⟨pre, p, rest, s, rfl, -, hp, hsnap, hr⟩ := h.hit hs
    exact ⟨b :: pre, p, rest, s, rfl, List.cons_ne_nil b pre, hp, hsnap, hr⟩
  miss := h.miss

theorem SearchResult.read {r r' : QPRegistry} (hno : ¬ ∃ s, SnapshotOf db p s)
    (h : SearchResult env db c ps (r.readSnapshot db p.nHeight).1.owners r') :
    SearchResult env db c (p :: ps) r.owners r' where
  hit hs := h.hit ((hasSnapshot_cons.1 hs).resolve_left hno)
  miss hs := by
    obtain ⟨q, hq, hr⟩ := h.miss fun hps => hs (hasSnapshot_cons.2 (.inr hps))
    refine ⟨q, hq.trans ?_, hr⟩
    rw [ownersRead, ownersRead, List.foldl_cons, readSnapshot]
    cases db[p.nHeight]? <;> rfl

theorem findSnapshot_spec {inMainChain : CBlockIndex → Bool}
    {nRewindToHeight : Int} : ∀ {b : CBlockIndex} {rest : Chain} {fFork : Bool} {r r' : QPRegistry},
    Linked (b :: rest) → b.nHeight ≤ nRewindToHeight →
    findSnapshot env inMainChain db nRewindToHeight (b :: rest) b.nHeight fFork r = .ok r' →
    SearchResult env db (b :: rest) (snapshotBlocks env inMainChain (b :: rest) fFork) r.owners r'
  | b, [], fFork, r, r', _, _, h => by
    rw [findSnapshot] at h
    · cases h
    · intro _ _ _ h'
      cases h'
  | b, p :: rest, fFork, r, r', hlinked, hle, h => by
    have hheight : b.nHeight - 1 = p.nHeight := by
      have hb : b.nHeight = p.nHeight + 1 := hlinked.1
      omega
    have ih := fun fFork r => @findSnapshot_spec inMainChain nRewindToHeight p rest fFork r r'
      hlinked.2 (by omega)
    rw [findSnapshot] at h
    rw [snapshotBlocks]
    simp only [hheight] at h
    split at h
    · next hfork =>
      cases h
      rw [if_pos hfork]
      exact ⟨fun ⟨_, hmem, _⟩ => absurd hmem List.not_mem_nil, fun _ => ⟨r, rfl, rfl⟩⟩
    · next hfork =>
      rw [if_neg hfork]
      split at h
      · next hdue =>
        rw [if_pos hdue]
        split at h
        · cases h
        · split at h
          · next hmatch =>
            simp only [Bool.and_eq_true, beq_iff_eq] at hmatch
            cases h
            obtain ⟨⟨hread, -⟩, hhash⟩ := hmatch
            rw [readSnapshot] at hread hhash ⊢
            cases hdb : db[p.nHeight]? with
            | none => simp only [hdb, Bool.false_eq_true] at hread
            | some s =>
              simp only [hdb, beq_iff_eq] at hread hhash ⊢
              have hsnap : SnapshotOf db p s := ⟨hdb, hread, hhash⟩
              have hpur := (purchase_le_getFork_iff env.fTestNet p.nHeight).1 (Fork.not_lt.1 hfork)
              exact ⟨fun _ => ⟨[b], p, rest, s, rfl, by simp, hpur, hsnap,
                sameData_unserialize r s⟩,
                fun hno => absurd (hasSnapshot_cons.2 (.inl ⟨s, hsnap⟩)) hno⟩
          · next hmatch =>
            refine (SearchResult.read ?_ (ih _ _ h)).cons
            rintro ⟨s, hdb, hsheight, hshash⟩
            refine hmatch ?_
            have hne : p.nHeight ≠ nRewindToHeight := by omega
            simp only [readSnapshot, hdb, Bool.and_eq_true, beq_iff_eq, bne_iff_ne]
            exact ⟨⟨hsheight, fun heq => hne (hsheight ▸ heq)⟩, hshash⟩
      · next hdue =>
        rw [if_neg hdue]
        exact (ih _ _ h).cons

def chainsAbove : List CBlockIndex → Chain → List Chain
  | [], _ => []
  | b :: pre, c => (b :: (pre ++ c)) :: chainsAbove pre c

theorem collectReplay_eq {env : QPEnv} {hashRegistry : Uint256} {p : CBlockIndex} {rest : Chain} :
    ∀ {pre : List CBlockIndex}, Linked (pre ++ p :: rest) → (∀ b ∈ pre, b.hashBlock ≠ hashRegistry) →
      (∀ b ∈ pre, getPurchaseStart env.fTestNet ≤ b.nHeight) →
      (p.hashBlock = hashRegistry ∨ p.nHeight < getPurchaseStart env.fTestNet) →
      collectReplay env hashRegistry (pre ++ p :: rest) (p.nHeight + pre.length) =
        some (chainsAbove pre (p :: rest), p, p.nHeight)
  | [], _, _, _, hp => by
    have hend : p.hashBlock = hashRegistry ∨ getFork env.fTestNet p.nHeight < .purchase := by
      rw [← Fork.not_le, purchase_le_getFork_iff]
      exact hp.imp id Int.not_le.2
    simp only [List.nil_append, List.length_nil, Int.natCast_zero, Int.add_zero, collectReplay,
      if_pos hend, chainsAbove]
  | b :: pre, hlinked, hhash, hheight, hp => by
    obtain ⟨hb, hpre⟩ := List.forall_mem_cons.1 hhash
    obtain ⟨hbheight, hpreheight⟩ := List.forall_mem_cons.1 hheight
    have hb' : b.nHeight = p.nHeight + (pre.length + 1 : Nat) := hlinked.head_eq b rfl
    have hgo : ¬ (b.hashBlock = hashRegistry ∨
        getFork env.fTestNet (p.nHeight + (pre.length + 1 : Nat)) < .purchase) := by
      rw [← hb', ← Fork.not_le, purchase_le_getFork_iff, not_or, not_not]
      exact ⟨hb, hbheight⟩
    have hrest : pre ++ p :: rest ≠ [] := by simp
    have hnext : p.nHeight + ((pre.length + 1 : Nat) : Int) - 1 = p.nHeight + pre.length := by omega
    rw [List.cons_append, collectReplay, List.length_cons, if_neg hgo, if_neg hrest, hnext,
      collectReplay_eq (@Linked.suffix [b] _ hlinked) hpre hpreheight hp]
    rfl

section Replay

variable {env : QPEnv} {now : CBlockIndex → Int} {nSnapshotType : SnapshotType}
  {y : QPRegistry × SnapshotDB} {R₀ : QPRegistry}

theorem replayOn_ok {rest : Chain} (h : replayOn env now nSnapshotType x (b :: rest) = .ok y) :
    (x.1.updateOnNewBlock env (now b) nSnapshotType false (rest.head?.getD b) b x.2).2 =
      (y.1, .accepted) := by
  rw [replayOn] at h
  split at h
  · next hupdate =>
    cases h
    rw [hupdate]
  · cases h

theorem foldlM_chainsAbove {pre : List CBlockIndex}
    (h : (chainsAbove (b :: pre) c).reverse.foldlM (replayOn env now nSnapshotType) x = .ok y) :
    ∃ z, (chainsAbove pre c).reverse.foldlM (replayOn env now nSnapshotType) x = .ok z ∧
      replayOn env now nSnapshotType z (b :: (pre ++ c)) = .ok y := by
  rw [chainsAbove, List.reverse_cons, List.foldlM_append] at h
  cases hz : (chainsAbove pre c).reverse.foldlM (replayOn env now nSnapshotType) x with
  | error e =>
    rw [hz] at h
    cases h
  | ok z =>
    rw [hz] at h
    refine ⟨z, rfl, ?_⟩
    cases hstep : replayOn env now nSnapshotType z (b :: (pre ++ c)) with
    | error e =>
      have hfail : ([b :: (pre ++ c)].foldlM (replayOn env now nSnapshotType) z) = .error e := by
        rw [List.foldlM_cons, hstep]
        rfl
      exact absurd (hfail.symm.trans h) (by simp)
    | ok w =>
      have hok : ([b :: (pre ++ c)].foldlM (replayOn env now nSnapshotType) z) = .ok w := by
        rw [List.foldlM_cons, hstep]
        rfl
      exact hok.symm.trans h

/-- Replaying blocks on a registry with the state of the block below gives the state of the chain. -/
theorem SameData.replayed (hc : replay env now c = some R₀) (hx : SameData x.1 R₀) :
    ∀ {pre : List CBlockIndex} {R : QPRegistry} {y : QPRegistry × SnapshotDB},
      replay env now (pre ++ c) = some R →
      (chainsAbove pre c).reverse.foldlM (replayOn env now nSnapshotType) x = .ok y → SameData y.1 R
  | [], R, y, hR, hy => by
    cases hc.symm.trans hR
    cases hy
    exact hx
  | b :: pre, R, y, hR, hy => by
    obtain ⟨z, hz, hstep⟩ := foldlM_chainsAbove hy
    obtain ⟨R₁, hR₁, hb⟩ := Option.bind_eq_some_iff.1 hR
    have ih := SameData.replayed hc hx hR₁ hz
    exact ih.updateOnNewBlock env (replayOn_ok hstep) (connectBlock_eq_some.1 hb)

theorem gains_replayed : ∀ {pre : List CBlockIndex} {y : QPRegistry × SnapshotDB},
      (chainsAbove pre c).reverse.foldlM (replayOn env now nSnapshotType) x = .ok y →
      Gains (pre.map (blockPurchases env)).sum x.1 y.1
  | [], y, hy => by
    cases hy
    exact gains_of_owners_eq rfl
  | b :: pre, y, hy => by
    obtain ⟨z, hz, hstep⟩ := foldlM_chainsAbove hy
    rw [List.map_cons, List.sum_cons, Nat.add_comm]
    exact (gains_replayed hz).trans (gains_updateOnNewBlock (replayOn_ok hstep))

theorem gains_replay (hc : replay env now c = some R₀) :
    ∀ {pre : List CBlockIndex} {R : QPRegistry}, replay env now (pre ++ c) = some R →
      Gains (pre.map (blockPurchases env)).sum R₀ R
  | [], R, hR => by
    cases hc.symm.trans hR
    exact gains_of_owners_eq rfl
  | b :: pre, R, hR => by
    obtain ⟨R₁, hR₁, hb⟩ := Option.bind_eq_some_iff.1 hR
    rw [List.map_cons, List.sum_cons, Nat.add_comm]
    exact (gains_replay hc hR₁).trans (gains_updateOnNewBlock (connectBlock_eq_some.1 hb))

theorem exists_replay_of_append : ∀ {pre : List CBlockIndex} {R : QPRegistry},
    replay env now (pre ++ c) = some R → ∃ R₀, replay env now c = some R₀
  | [], R, hR => ⟨R, hR⟩
  | b :: pre, R, hR => by
    obtain ⟨R₁, hR₁, -⟩ := Option.bind_eq_some_iff.1 hR
    exact exists_replay_of_append hR₁

end Replay

end QPRegistry

end Stealth

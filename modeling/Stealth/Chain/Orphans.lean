import Mathlib.Data.List.Infix
import Stealth.Chain.Values

/-!
The two tables of orphan blocks, by hash and by previous block. An accepted block starts a work queue, and a
turn that ends early leaves its orphan behind in one table. The rest of the node is a parameter.
-/

namespace Stealth

/-- How a call ends: it returns true or false, or throws. -/
inductive Verdict
  | accepted
  | rejected
  | thrown
  deriving DecidableEq, Repr

structure ProcessFlags where
  fIsBootstrap : Bool := false
  fJustCheck : Bool := false
  fIsMine : Bool := false
  deriving DecidableEq, Repr

def CBlock.getProofOfStake (b : CBlock) : COutPoint × UInt32 :=
  match b.vtx with
  | _ :: ⟨nVersion, nTime, txin :: vin, vout, nLockTime⟩ :: _ =>
    let tx : CTransaction := ⟨nVersion, nTime, txin :: vin, vout, nLockTime⟩
    if tx.isCoinStake then (txin.prevout, if tx.hasTimestamp then nTime else b.nTime)
    else (⟨0, 0xffffffff⟩, 0)
  | _ => (⟨0, 0xffffffff⟩, 0)

/-- What `ProcessBlock` asks of the node. `check` makes the temporary registry and ends with the checks of the
checkpoints, `finish` is what follows the work queue. -/
structure ProcessApi (σ : Type) where
  getHash : CBlock → Uint256
  hashGenesisBlock : Uint256
  permitDirtyBootstrap : Bool
  fUseSyncCheckpoints : Bool
  isIndexed : σ → Uint256 → Bool
  extendsBest : σ → Uint256 → Bool
  eraseIndex : σ → Uint256 → σ
  stakeIsSeen : σ → COutPoint × UInt32 → Bool
  wantedByPendingSyncCheckpoint : σ → Uint256 → Bool
  check : ProcessFlags → σ → CBlock → σ × Verdict
  registryHash : σ → Uint256
  rewindRegistry : σ → Uint256 → σ × Verdict
  acceptBlock : ProcessFlags → σ → CBlock → σ × Verdict
  finish : σ → σ × Verdict

/-- The node with its orphans. The multimap is the list of its entries in the order of their insertion. The last
field is not in the source: the hashes of the blocks that `AcceptBlock` has accepted. -/
structure Orphanage (σ : Type) where
  node : σ
  mapOrphanBlocks : Map Uint256 CBlock := ∅
  mapOrphanBlocksByPrev : List (Uint256 × CBlock) := []
  setStakeSeenOrphan : List (COutPoint × UInt32) := []
  accepted : List Uint256 := []

/-- A part of the call: the state to go on with, or how the call ends. -/
abbrev Step (σ α : Type) := Except (Orphanage σ × Verdict) α

namespace ProcessApi

variable {σ : Type} (N : ProcessApi σ)

def turnTo (node : σ) (b : CBlock) : σ × Verdict :=
  if b.hashPrevBlock = N.registryHash node then (node, .accepted)
  else if !N.isIndexed node b.hashPrevBlock then (node, .rejected)
  else N.rewindRegistry node b.hashPrevBlock

def release (s : Orphanage σ) (node : σ) (b : CBlock) : Orphanage σ :=
  { s with
    node := node
    mapOrphanBlocks := s.mapOrphanBlocks.erase (N.getHash b)
    setStakeSeenOrphan := s.setStakeSeenOrphan.filter (· ≠ b.getProofOfStake) }

def tryOrphan (f : ProcessFlags) (w : Orphanage σ × List Uint256) (e : Uint256 × CBlock) :
    Step σ (Orphanage σ × List Uint256) :=
  let (s, vWorkQueue) := w
  let b := e.2
  match N.turnTo s.node b with
  | (node, .thrown) => .error ({ s with node := node }, .thrown)
  | (node, .rejected) => .ok ({ s with node := node }, vWorkQueue)
  | (node, .accepted) =>
    match N.acceptBlock f node b with
    | (node, .thrown) => .error ({ s with node := node }, .thrown)
    | (node, .rejected) => .ok (N.release s node b, vWorkQueue)
    | (node, .accepted) =>
      .ok ({ N.release s node b with accepted := N.getHash b :: s.accepted },
        vWorkQueue ++ [N.getHash b])

def waitingFor (s : Orphanage σ) (hashPrev : Uint256) : List (Uint256 × CBlock) :=
  s.mapOrphanBlocksByPrev.filter fun e => e.1 = hashPrev

def eraseListed (s : Orphanage σ) (hashPrev : Uint256) : Orphanage σ :=
  { s with mapOrphanBlocksByPrev := s.mapOrphanBlocksByPrev.filter fun e => ¬ e.1 = hashPrev }

def workThrough (f : ProcessFlags) : Nat → List Uint256 → Orphanage σ → Step σ (Orphanage σ)
  | 0, _, s => .ok s
  | _ + 1, [], s => .ok s
  | fuel + 1, hashPrev :: vWorkQueue, s => do
    let (s, vWorkQueue) ← (waitingFor s hashPrev).foldlM (N.tryOrphan f) (s, vWorkQueue)
    workThrough f fuel vWorkQueue (eraseListed s hashPrev)

/-- A block whose previous block is known is accepted, or the call ends. -/
def acceptKnown (f : ProcessFlags) (s : Orphanage σ) (b : CBlock) : Step σ (Orphanage σ) :=
  let rewound :=
    if N.registryHash s.node = b.hashPrevBlock ∨ N.registryHash s.node = N.hashGenesisBlock then
      (s.node, .accepted)
    else N.rewindRegistry s.node b.hashPrevBlock
  match rewound with
  | (node, .accepted) =>
    match N.acceptBlock f node b with
    | (node, .accepted) => .ok { s with node := node, accepted := N.getHash b :: s.accepted }
    | (node, v) => .error ({ s with node := node }, v)
  | (node, v) => .error ({ s with node := node }, v)

def isAwaited (s : Orphanage σ) (hash : Uint256) : Bool := s.mapOrphanBlocksByPrev.any fun e => e.1 == hash

def holdOrphan (s : Orphanage σ) (b : CBlock) : Orphanage σ × Verdict :=
  if b.isProofOfStake && s.setStakeSeenOrphan.contains b.getProofOfStake && !isAwaited s (N.getHash b) &&
      !(N.fUseSyncCheckpoints && N.wantedByPendingSyncCheckpoint s.node (N.getHash b)) then (s, .rejected)
  else
    ({ s with
        setStakeSeenOrphan :=
          if b.isProofOfStake then b.getProofOfStake :: s.setStakeSeenOrphan else s.setStakeSeenOrphan
        mapOrphanBlocks := s.mapOrphanBlocks.insert (N.getHash b) b
        mapOrphanBlocksByPrev := s.mapOrphanBlocksByPrev ++ [(b.hashPrevBlock, b)] }, .accepted)

def acceptNew (f : ProcessFlags) (s : Orphanage σ) (b : CBlock) : Step σ (Orphanage σ) :=
  let hash := N.getHash b
  if s.mapOrphanBlocks.contains hash then .error (s, .rejected)
  else if b.isProofOfStake && N.stakeIsSeen s.node b.getProofOfStake && !isAwaited s hash &&
      !N.wantedByPendingSyncCheckpoint s.node hash && !(f.fIsBootstrap && N.permitDirtyBootstrap) then
    .error (s, .rejected)
  else
    match N.check f s.node b with
    | (node, .accepted) =>
      if N.isIndexed node b.hashPrevBlock then N.acceptKnown f { s with node := node } b
      else .error (N.holdOrphan { s with node := node } b)
    | (node, v) => .error ({ s with node := node }, v)

/-- The block index forgets a block that extends the best one, so that it is processed again. -/
def forget (s : Orphanage σ) (hash : Uint256) : Orphanage σ :=
  { s with node := N.eraseIndex s.node hash, accepted := s.accepted.filter (· ≠ hash) }

/-- `ProcessBlock` up to its work queue. -/
def accept (f : ProcessFlags) (s : Orphanage σ) (b : CBlock) : Step σ (Orphanage σ) :=
  let hash := N.getHash b
  if hash = N.hashGenesisBlock then .error (s, .rejected)
  else if N.isIndexed s.node hash then
    if N.extendsBest s.node hash then N.acceptNew f (N.forget s hash) b else .error (s, .rejected)
  else N.acceptNew f s b

def queueLength (s : Orphanage σ) : Nat := s.mapOrphanBlocksByPrev.length + 1

def processBlock (f : ProcessFlags) (s : Orphanage σ) (b : CBlock) : Orphanage σ × Verdict :=
  match N.accept f s b >>= fun s => N.workThrough f (queueLength s) [N.getHash b] s with
  | .ok s => ({ s with node := (N.finish s.node).1 }, (N.finish s.node).2)
  | .error r => r

def run (node : σ) (calls : List (ProcessFlags × CBlock)) : Orphanage σ :=
  calls.foldl (fun s c => (N.processBlock c.1 s c.2).1) { node := node }

/-- At the state of the node before its turn, an orphan does not get to `AcceptBlock`, or something throws. -/
def endsEarly (f : ProcessFlags) (t : σ × CBlock) : Bool :=
  match N.turnTo t.1 t.2 with
  | (node, .accepted) => (N.acceptBlock f node t.2).2 == .thrown
  | _ => true

/-- The orphans that get a turn, each with the state of the node before it. -/
def turnsOf (f : ProcessFlags) : List (Uint256 × CBlock) → Orphanage σ × List Uint256 → List (σ × CBlock)
  | [], _ => []
  | e :: es, w => (w.1.node, e.2) ::
    match N.tryOrphan f w e with
    | .ok w => turnsOf f es w
    | .error _ => []

def turnsThrough (f : ProcessFlags) : Nat → List Uint256 → Orphanage σ → List (σ × CBlock)
  | fuel + 1, hashPrev :: vWorkQueue, s => N.turnsOf f (waitingFor s hashPrev) (s, vWorkQueue) ++
    match (waitingFor s hashPrev).foldlM (N.tryOrphan f) (s, vWorkQueue) with
    | .ok (s, vWorkQueue) => turnsThrough f fuel vWorkQueue (eraseListed s hashPrev)
    | .error _ => []
  | _, _, _ => []

/-- The turns of a call. -/
def turns (f : ProcessFlags) (s : Orphanage σ) (b : CBlock) : List (σ × CBlock) :=
  match N.accept f s b with
  | .ok s => N.turnsThrough f (queueLength s) [N.getHash b] s
  | .error _ => []

/-- The block index loses no block. -/
def Keeps (node node' : σ) : Prop := ∀ h, N.isIndexed node h = true → N.isIndexed node' h = true

/-- Only `eraseIndex` takes a block out of the block index, and an accepted block is in it. -/
structure Lawful : Prop where
  eraseIndex : ∀ node h k, k ≠ h → N.isIndexed node k = true → N.isIndexed (N.eraseIndex node h) k = true
  check : ∀ f node b, N.Keeps node (N.check f node b).1
  rewindRegistry : ∀ node h, N.Keeps node (N.rewindRegistry node h).1
  acceptBlock : ∀ f node b, N.Keeps node (N.acceptBlock f node b).1
  finish : ∀ node, N.Keeps node (N.finish node).1
  accepted : ∀ f node b, (N.acceptBlock f node b).2 = .accepted →
    N.isIndexed (N.acceptBlock f node b).1 (N.getHash b) = true

/-- The two tables hold the same blocks, and none whose previous block has been accepted. -/
structure Coherent (s : Orphanage σ) : Prop where
  keyed : ∀ (h : Uint256) (b : CBlock), s.mapOrphanBlocks[h]? = some b → N.getHash b = h
  listed : ∀ (h : Uint256) (b : CBlock), s.mapOrphanBlocks[h]? = some b →
    s.mapOrphanBlocksByPrev.filter (fun e => e.2 = b) = [(b.hashPrevBlock, b)]
  held : ∀ e ∈ s.mapOrphanBlocksByPrev, s.mapOrphanBlocks[N.getHash e.2]? = some e.2
  waiting : ∀ (h : Uint256) (b : CBlock), s.mapOrphanBlocks[h]? = some b → b.hashPrevBlock ∉ s.accepted

/-- An orphan that is not to be tried any more is held although its previous block has been accepted. -/
def Stays (s : Orphanage σ) (live : List (Uint256 × CBlock)) : Prop :=
  ∃ b, s.mapOrphanBlocks[N.getHash b]? = some b ∧ b.hashPrevBlock ∈ s.accepted ∧
    ∀ e ∈ live, N.getHash e.2 ≠ N.getHash b

theorem Stays.not_coherent {N : ProcessApi σ} {s : Orphanage σ} {live : List (Uint256 × CBlock)}
    (h : N.Stays s live) : ¬ N.Coherent s := by
  intro hs
  obtain ⟨b, hb, hprev, -⟩ := h
  exact hs.waiting _ b hb hprev

/-- The invariant of the loops: the orphans that have not had a turn, and the accepted blocks whose orphans are
still to be tried. -/
structure Pending (s : Orphanage σ) (live : List (Uint256 × CBlock)) (queue : List Uint256) : Prop where
  keyed : ∀ e ∈ live, e.1 = e.2.hashPrevBlock
  nodup : (live.map fun e => N.getHash e.2).Nodup
  held : ∀ e ∈ live, s.mapOrphanBlocks[N.getHash e.2]? = some e.2
  known : ∀ (h : Uint256) (b : CBlock), s.mapOrphanBlocks[h]? = some b →
    N.getHash b = h ∧ (b.hashPrevBlock, b) ∈ live
  indexed : ∀ h ∈ s.accepted, N.isIndexed s.node h = true
  waiting : ∀ e ∈ live, e.1 ∈ s.accepted → e.1 ∈ queue
  queued : ∀ h ∈ queue, h ∈ s.accepted

/-- Nothing is to be tried. -/
abbrev Settled (s : Orphanage σ) : Prop := N.Pending s s.mapOrphanBlocksByPrev []

variable {N}

namespace Pending

variable {s : Orphanage σ} {live : List (Uint256 × CBlock)} {queue : List Uint256} {e : Uint256 × CBlock}

theorem perm {live' : List (Uint256 × CBlock)} (h : N.Pending s live queue) (hperm : live.Perm live') :
    N.Pending s live' queue where
  keyed e he := h.keyed e (hperm.mem_iff.2 he)
  nodup := (hperm.map _).nodup_iff.1 h.nodup
  held e he := h.held e (hperm.mem_iff.2 he)
  known k b hk := ⟨(h.known k b hk).1, hperm.mem_iff.1 (h.known k b hk).2⟩
  indexed := h.indexed
  waiting e he := h.waiting e (hperm.mem_iff.2 he)
  queued := h.queued

theorem setNode {node : σ} (h : N.Pending s live queue) (hkeep : N.Keeps s.node node) :
    N.Pending { s with node := node } live queue :=
  { h with indexed := fun k hk => hkeep k (h.indexed k hk) }

theorem hash_ne (h : N.Pending s (e :: live) queue) : ∀ e' ∈ live, N.getHash e'.2 ≠ N.getHash e.2 := by
  intro e' he' heq
  have hnodup := h.nodup
  rw [List.map_cons, List.nodup_cons] at hnodup
  apply hnodup.1
  rw [← heq]
  exact List.mem_map_of_mem he'

theorem lose (h : N.Pending s (e :: live) queue) (hturn : e.1 ∈ queue) : N.Stays s live := by
  refine ⟨e.2, h.held e (List.mem_cons_self ..), ?_, h.hash_ne⟩
  rw [← h.keyed e (List.mem_cons_self ..)]
  exact h.queued e.1 hturn

theorem release {node : σ} (h : N.Pending s (e :: live) queue) (hkeep : N.Keeps s.node node) :
    N.Pending (N.release s node e.2) live queue where
  keyed e' he' := h.keyed e' (List.mem_cons_of_mem e he')
  nodup := (List.nodup_cons.1 h.nodup).2
  held e' he' := by
    rw [ProcessApi.release, getElem?_erase, if_neg]
    · exact h.held e' (List.mem_cons_of_mem e he')
    · intro heq
      exact h.hash_ne e' he' (Std.LawfulEqCmp.eq_of_compare heq).symm
  known k b hk := by
    rw [ProcessApi.release, getElem?_erase] at hk
    split at hk
    · cases hk
    next hne =>
    obtain ⟨hkey, hlive⟩ := h.known k b hk
    refine ⟨hkey, (List.mem_cons.1 hlive).resolve_left ?_⟩
    rintro rfl
    exact hne (by rw [hkey]; exact Std.ReflCmp.compare_self)
  indexed k hk := hkeep k (h.indexed k hk)
  waiting e' he' := h.waiting e' (List.mem_cons_of_mem e he')
  queued := h.queued

theorem accept {h : Uint256} (hs : N.Pending s live queue) (hindexed : N.isIndexed s.node h = true) :
    N.Pending { s with accepted := h :: s.accepted } live (queue ++ [h]) :=
  { hs with
    indexed := List.forall_mem_cons.2 ⟨hindexed, hs.indexed⟩
    waiting := fun e he hacc => by
      rcases List.mem_cons.1 hacc with heq | hacc
      · exact List.mem_append_right _ (List.mem_singleton.2 heq)
      · exact List.mem_append_left _ (hs.waiting e he hacc)
    queued := fun k hk => by
      rcases List.mem_append.1 hk with hk | hk
      · exact List.mem_cons_of_mem h (hs.queued k hk)
      · exact List.mem_cons.2 (.inl (List.mem_singleton.1 hk)) }

end Pending

/-- What is known in the loops: the invariant until a turn has ended early, and then that an orphan stays. -/
def Knows (N : ProcessApi σ) : Bool → Orphanage σ → List (Uint256 × CBlock) → List Uint256 → Prop
  | false => N.Pending
  | true => fun s live _ => N.Stays s live

namespace Knows

variable {early : Bool} {s : Orphanage σ} {live : List (Uint256 × CBlock)} {queue : List Uint256}
  {e : Uint256 × CBlock}

theorem perm {live' : List (Uint256 × CBlock)} (h : N.Knows early s live queue) (hperm : live.Perm live') :
    N.Knows early s live' queue := by
  cases early with
  | false => exact Pending.perm h hperm
  | true =>
    obtain ⟨b, hb, hprev, hne⟩ := h
    exact ⟨b, hb, hprev, fun e he => hne e (hperm.mem_iff.2 he)⟩

theorem lose (h : N.Knows early s (e :: live) queue) (hturn : e.1 ∈ queue) : N.Stays s live := by
  cases early with
  | false => exact Pending.lose h hturn
  | true =>
    obtain ⟨b, hb, hprev, hne⟩ := h
    exact ⟨b, hb, hprev, fun e' he' => hne e' (List.mem_cons_of_mem e he')⟩

theorem release {node : σ} (h : N.Knows early s (e :: live) queue) (hkeep : N.Keeps s.node node) :
    N.Knows early (N.release s node e.2) live queue := by
  cases early with
  | false => exact Pending.release h hkeep
  | true =>
    obtain ⟨b, hb, hprev, hne⟩ := h
    refine ⟨b, ?_, hprev, fun e' he' => hne e' (List.mem_cons_of_mem e he')⟩
    rw [ProcessApi.release, getElem?_erase, if_neg]
    · exact hb
    · exact fun heq => hne e (List.mem_cons_self ..) (Std.LawfulEqCmp.eq_of_compare heq)

theorem accept {h : Uint256} (hs : N.Knows early s live queue) (hindexed : N.isIndexed s.node h = true) :
    N.Knows early { s with accepted := h :: s.accepted } live (queue ++ [h]) := by
  cases early with
  | false => exact Pending.accept hs hindexed
  | true =>
    obtain ⟨b, hb, hprev, hne⟩ := hs
    exact ⟨b, hb, List.mem_cons_of_mem h hprev, hne⟩

/-- A block without orphans need not stay in the queue. -/
theorem leaveQueue {hashPrev : Uint256} (h : N.Knows early s live (hashPrev :: queue))
    (hnone : ∀ e ∈ live, e.1 ≠ hashPrev) : N.Knows early (eraseListed s hashPrev) live queue := by
  cases early with
  | false =>
    exact { (h : N.Pending s live _) with
      waiting := fun e he hacc => (List.mem_cons.1 (h.waiting e he hacc)).resolve_left (hnone e he)
      queued := fun k hk => h.queued k (List.mem_cons_of_mem _ hk) }
  | true => exact h

end Knows

theorem turnTo_keeps (hN : N.Lawful) (node : σ) (b : CBlock) : N.Keeps node (N.turnTo node b).1 := by
  rw [turnTo]
  split_ifs
  · exact fun _ hi => hi
  · exact fun _ hi => hi
  · exact hN.rewindRegistry node b.hashPrevBlock

section Loops

variable (hN : N.Lawful) (f : ProcessFlags)
include hN

theorem Knows.tryOrphan {early : Bool} {w : Orphanage σ × List Uint256} {e : Uint256 × CBlock}
    {live : List (Uint256 × CBlock)} (h : N.Knows early w.1 (e :: live) (e.1 :: w.2)) : Fallible.Spec
      (fun w' => N.Knows (early || N.endsEarly f (w.1.node, e.2)) w'.1 live (e.1 :: w'.2) ∧
        w'.2.length ≤ w.2.length + 1 ∧ w'.1.mapOrphanBlocksByPrev = w.1.mapOrphanBlocksByPrev)
      (fun s _ => (early || N.endsEarly f (w.1.node, e.2)) = true ∧ N.Stays s live) (N.tryOrphan f w e) := by
  obtain ⟨s, queue⟩ := w
  have hturn := turnTo_keeps hN s.node e.2
  have hlose := h.lose (List.mem_cons_self ..)
  rw [ProcessApi.tryOrphan, endsEarly]
  dsimp only
  rcases hrewound : N.turnTo s.node e.2 with ⟨node, _ | _ | _⟩
  · -- the registry is at the previous block
    rw [hrewound] at hturn
    have haccept : N.Keeps s.node (N.acceptBlock f node e.2).1 :=
      fun k hk => hN.acceptBlock f node e.2 k (hturn k hk)
    have hnew := hN.accepted f node e.2
    dsimp only
    rcases hverdict : N.acceptBlock f node e.2 with ⟨node', _ | _ | _⟩ <;>
      rw [hverdict] at haccept hnew
    · rw [show (Verdict.accepted == Verdict.thrown) = false from rfl, Bool.or_false]
      exact ⟨(h.release haccept).accept (hnew rfl), Nat.le_of_eq List.length_append, rfl⟩
    · rw [show (Verdict.rejected == Verdict.thrown) = false from rfl, Bool.or_false]
      exact ⟨h.release haccept, Nat.le_succ _, rfl⟩
    · exact ⟨Bool.or_true _, hlose⟩
  · rw [Bool.or_true]
    exact ⟨hlose, Nat.le_succ _, rfl⟩
  · exact ⟨Bool.or_true _, hlose⟩

theorem Knows.tryOrphans {hashPrev : Uint256} {rest : List (Uint256 × CBlock)} :
    ∀ (es : List (Uint256 × CBlock)) {early : Bool} {w : Orphanage σ × List Uint256},
      (∀ e ∈ es, e.1 = hashPrev) → N.Knows early w.1 (es ++ rest) (hashPrev :: w.2) →
      Fallible.Spec
        (fun w' => N.Knows (early || (N.turnsOf f es w).any (N.endsEarly f)) w'.1 rest (hashPrev :: w'.2) ∧
          w'.2.length ≤ w.2.length + es.length ∧ w'.1.mapOrphanBlocksByPrev = w.1.mapOrphanBlocksByPrev)
        (fun s _ => (early || (N.turnsOf f es w).any (N.endsEarly f)) = true ∧ ∃ live, N.Stays s live)
        (es.foldlM (N.tryOrphan f) w)
  | [], early, _, _, h => ⟨by rw [turnsOf, List.any_nil, Bool.or_false]; exact h, Nat.le_refl _, rfl⟩
  | e :: es, early, w, hes, h => by
    obtain rfl := hes e (List.mem_cons_self ..)
    rw [List.foldlM_cons, turnsOf, List.any_cons, ← Bool.or_assoc]
    have htry := Knows.tryOrphan hN f h
    cases hw : N.tryOrphan f w e with
    | error r =>
      rw [hw] at htry
      exact ⟨Bool.or_eq_true_iff.2 (.inl htry.1), _, htry.2⟩
    | ok w' =>
      rw [hw] at htry
      obtain ⟨hknows, hlength, hlisted⟩ := htry
      apply (Knows.tryOrphans es (fun e' he' => hes e' (List.mem_cons_of_mem e he')) hknows).mono
      · rintro w'' ⟨hknows', hlength', hlisted'⟩
        refine ⟨hknows', ?_, hlisted'.trans hlisted⟩
        rw [List.length_cons]
        omega
      · exact fun _ _ hstays => hstays

/-- The work queue empties: every block that joins it was listed as an orphan before. -/
theorem Knows.workThrough : ∀ (fuel : Nat) (queue : List Uint256) (early : Bool) (s : Orphanage σ),
    queue.length + s.mapOrphanBlocksByPrev.length ≤ fuel →
    N.Knows early s s.mapOrphanBlocksByPrev queue →
    Fallible.Spec
      (fun s' => N.Knows (early || (N.turnsThrough f fuel queue s).any (N.endsEarly f)) s'
        s'.mapOrphanBlocksByPrev [])
      (fun s' _ => (early || (N.turnsThrough f fuel queue s).any (N.endsEarly f)) = true ∧
        ∃ live, N.Stays s' live)
      (N.workThrough f fuel queue s)
  | 0, queue, early, s, hfuel, h => by
    obtain rfl := List.eq_nil_of_length_eq_zero (by omega : queue.length = 0)
    rw [turnsThrough, List.any_nil, Bool.or_false]
    · exact h
    · exact nofun
  | _ + 1, [], early, _, _, h => by
    rw [turnsThrough, List.any_nil, Bool.or_false]
    · exact h
    · exact nofun
  | fuel + 1, hashPrev :: queue, early, s, hfuel, h => by
    have hperm := List.filter_append_perm (fun e : Uint256 × CBlock => decide (e.1 = hashPrev))
      s.mapOrphanBlocksByPrev
    have hsize := hperm.length_eq
    rw [List.length_append] at hsize
    rw [List.length_cons] at hfuel
    have htry := Knows.tryOrphans hN f (w := (s, queue)) (waitingFor s hashPrev)
      (fun e he => of_decide_eq_true (List.mem_filter.1 he).2) (h.perm hperm.symm)
    rw [ProcessApi.workThrough, turnsThrough, List.any_append, ← Bool.or_assoc]
    cases hw : (waitingFor s hashPrev).foldlM (N.tryOrphan f) (s, queue) with
    | error r =>
      rw [hw] at htry
      exact ⟨Bool.or_eq_true_iff.2 (.inl htry.1), htry.2⟩
    | ok w' =>
      obtain ⟨s', queue'⟩ := w'
      rw [hw] at htry
      obtain ⟨hknows, hlength, hlisted⟩ := htry
      dsimp only at hknows hlength hlisted
      have hrest : (eraseListed s' hashPrev).mapOrphanBlocksByPrev =
          s.mapOrphanBlocksByPrev.filter fun e => !decide (e.1 = hashPrev) := by
        rw [eraseListed, hlisted]
        exact List.filter_congr fun e _ => decide_not
      apply Knows.workThrough fuel
      · rw [hrest]
        rw [waitingFor] at hlength
        omega
      · rw [hrest]
        exact hknows.leaveQueue fun e he => by simpa using (List.mem_filter.1 he).2

end Loops

section Calls

variable {s : Orphanage σ}

theorem filter_eq_singleton_of_nodup {l : List (Uint256 × CBlock)} {e : Uint256 × CBlock}
    (hnodup : (l.map fun e => N.getHash e.2).Nodup) (he : e ∈ l) : l.filter (fun x => x.2 = e.2) = [e] := by
  induction l with
  | nil => cases he
  | cons x l ih =>
    rw [List.map_cons, List.nodup_cons] at hnodup
    rcases List.mem_cons.1 he with rfl | he
    · rw [List.filter_cons, if_pos (decide_eq_true rfl), List.filter_eq_nil_iff.2]
      intro y hy heq
      apply hnodup.1
      rw [← of_decide_eq_true heq]
      exact List.mem_map_of_mem hy
    · rw [List.filter_cons_of_neg, ih hnodup.2 he]
      intro heq
      apply hnodup.1
      rw [of_decide_eq_true heq]
      exact List.mem_map_of_mem he

theorem Pending.coherent (h : N.Settled s) : N.Coherent s where
  keyed k b hk := (h.known k b hk).1
  listed k b hk := filter_eq_singleton_of_nodup h.nodup (h.known k b hk).2
  held := h.held
  waiting k b hk hacc := absurd (h.waiting _ (h.known k b hk).2 hacc) List.not_mem_nil

theorem Pending.forget (hN : N.Lawful) (h : N.Settled s) (hash : Uint256) :
    N.Settled (N.forget s hash) :=
  { h with
    indexed := fun k hk => by
      obtain ⟨hmem, hne⟩ := List.mem_filter.1 hk
      exact hN.eraseIndex s.node hash k (of_decide_eq_true hne) (h.indexed k hmem)
    waiting := fun e he hacc => h.waiting e he (List.mem_filter.1 hacc).1
    queued := nofun }

theorem Pending.holdOrphan (h : N.Settled s) {b : CBlock}
    (hnew : s.mapOrphanBlocks.contains (N.getHash b) = false)
    (hprev : N.isIndexed s.node b.hashPrevBlock = false) :
    N.Settled (N.holdOrphan s b).1 := by
  have habsent : s.mapOrphanBlocks[N.getHash b]? = none :=
    Std.ExtTreeMap.getElem?_eq_none_of_contains_eq_false hnew
  have hfresh : ∀ e ∈ s.mapOrphanBlocksByPrev, N.getHash e.2 ≠ N.getHash b := by
    intro e he heq
    have := h.held e he
    rw [heq, habsent] at this
    cases this
  rw [ProcessApi.holdOrphan]
  split
  · exact h
  exact {
    keyed := by
      intro e he
      rcases List.mem_append.1 he with he | he
      · exact h.keyed e he
      · rw [List.mem_singleton.1 he]
    nodup := by
      rw [List.map_append, List.nodup_append]
      refine ⟨h.nodup, List.nodup_singleton _, ?_⟩
      intro k hk k' hk' heq
      obtain ⟨e, he, rfl⟩ := List.mem_map.1 hk
      exact hfresh e he (heq.trans (List.mem_singleton.1 hk'))
    held := by
      intro e he
      rw [getElem?_insert]
      rcases List.mem_append.1 he with he | he
      · rw [if_neg fun heq => hfresh e he (Std.LawfulEqCmp.eq_of_compare heq).symm]
        exact h.held e he
      · rw [List.mem_singleton.1 he, if_pos Std.ReflCmp.compare_self]
    known := by
      intro k b' hk
      rw [getElem?_insert] at hk
      split at hk
      · next heq =>
        cases hk
        exact ⟨Std.LawfulEqCmp.eq_of_compare heq, List.mem_append_right _ (List.mem_singleton.2 rfl)⟩
      · exact ⟨(h.known k b' hk).1, List.mem_append_left _ (h.known k b' hk).2⟩
    indexed := h.indexed
    waiting := by
      intro e he hacc
      rcases List.mem_append.1 he with he | he
      · exact h.waiting e he hacc
      · rw [List.mem_singleton.1 he] at hacc
        rw [h.indexed _ hacc] at hprev
        cases hprev
    queued := nofun }

variable (hN : N.Lawful) (f : ProcessFlags) (b : CBlock)
include hN

/-- Either the call ends with nothing to be tried, or the orphans of the accepted block are next. -/
def Entered (N : ProcessApi σ) (b : CBlock) : Step σ (Orphanage σ) → Prop :=
  Fallible.Spec (fun s => N.Pending s s.mapOrphanBlocksByPrev [N.getHash b])
    fun s _ => N.Settled s

theorem Pending.acceptKnown (h : N.Settled s) : N.Entered b (N.acceptKnown f s b) := by
  rw [ProcessApi.acceptKnown]
  generalize hrewound : (if N.registryHash s.node = b.hashPrevBlock ∨
    N.registryHash s.node = N.hashGenesisBlock then (s.node, Verdict.accepted)
    else N.rewindRegistry s.node b.hashPrevBlock) = rewound
  have hkeep : N.Keeps s.node rewound.1 := by
    rw [← hrewound]
    split
    · exact fun _ hk => hk
    · exact hN.rewindRegistry s.node b.hashPrevBlock
  obtain ⟨node, _ | _ | _⟩ := rewound
  · have haccept : N.Keeps s.node (N.acceptBlock f node b).1 :=
      fun k hk => hN.acceptBlock f node b k (hkeep k hk)
    have hnew := hN.accepted f node b
    dsimp only
    rcases hverdict : N.acceptBlock f node b with ⟨node', _ | _ | _⟩ <;> rw [hverdict] at haccept hnew
    · exact (h.setNode haccept).accept (hnew rfl)
    · exact h.setNode haccept
    · exact h.setNode haccept
  · exact h.setNode hkeep
  · exact h.setNode hkeep

theorem Pending.acceptNew (h : N.Settled s) : N.Entered b (N.acceptNew f s b) := by
  have hcheck := hN.check f s.node b
  rw [ProcessApi.acceptNew]
  split
  · exact h
  next hnew =>
  split
  · exact h
  rcases hverdict : N.check f s.node b with ⟨node, _ | _ | _⟩ <;> rw [hverdict] at hcheck
  · have hnode : N.Settled { s with node := node } := h.setNode hcheck
    dsimp only
    split
    · exact Pending.acceptKnown hN f b hnode
    · next hprev =>
      exact Pending.holdOrphan hnode (Bool.eq_false_of_not_eq_true hnew)
        (Bool.eq_false_of_not_eq_true hprev)
  · exact h.setNode hcheck
  · exact h.setNode hcheck

theorem Pending.entered (h : N.Settled s) : N.Entered b (N.accept f s b) := by
  rw [ProcessApi.accept]
  split
  · exact h
  split
  · split
    · exact Pending.acceptNew hN f b (h.forget hN _)
    · exact h
  · exact h.acceptNew hN f b

/-- A call ends with nothing to be tried, or one of its turns ends early and the tables are not coherent. -/
theorem Pending.processBlock (h : N.Settled s) :
    let s' := (N.processBlock f s b).1
    (∀ t ∈ N.turns f s b, N.endsEarly f t = false) ∧ N.Settled s' ∨
      (∃ t ∈ N.turns f s b, N.endsEarly f t = true) ∧ ¬ N.Coherent s' := by
  have hentered := h.entered hN f b
  rw [ProcessApi.processBlock, turns]
  cases haccept : N.accept f s b with
  | error r =>
    rw [haccept] at hentered
    exact .inl ⟨nofun, hentered⟩
  | ok s₁ =>
    rw [haccept] at hentered
    have hloop := Knows.workThrough hN f (queueLength s₁) [N.getHash b] false s₁
      (Nat.le_of_eq (Nat.add_comm ..)) hentered
    rw [Bool.false_or] at hloop
    dsimp only [bind, Except.bind]
    cases hearly : (N.turnsThrough f (queueLength s₁) [N.getHash b] s₁).any (N.endsEarly f) <;>
      rw [hearly] at hloop
    · rw [List.any_eq_false] at hearly
      refine .inl ⟨fun t ht => Bool.eq_false_of_not_eq_true (hearly t ht), ?_⟩
      cases hwork : N.workThrough f (queueLength s₁) [N.getHash b] s₁ with
      | ok s₂ =>
        rw [hwork] at hloop
        exact Pending.setNode hloop (hN.finish s₂.node)
      | error r =>
        rw [hwork] at hloop
        cases hloop.1
    · refine .inr ⟨List.any_eq_true.1 hearly, ?_⟩
      cases hwork : N.workThrough f (queueLength s₁) [N.getHash b] s₁ with
      | ok s₂ =>
        rw [hwork] at hloop
        exact Stays.not_coherent (s := { s₂ with node := _ }) hloop
      | error r =>
        rw [hwork] at hloop
        exact hloop.2.choose_spec.not_coherent

end Calls

theorem pending_start (N : ProcessApi σ) (node : σ) : N.Settled { node := node } where
  keyed := nofun
  nodup := List.nodup_nil
  held := nofun
  known k b hk := by
    rw [getElem?_empty] at hk
    cases hk
  indexed := nofun
  waiting := nofun
  queued := nofun

/-- Nothing is to be tried after a run of calls, if after each of them the tables are coherent or none of its turns
has ended early. -/
theorem pending_run (hN : N.Lawful) (node : σ) (calls : List (ProcessFlags × CBlock))
    (h : ∀ c f b, c ++ [(f, b)] <+: calls → N.Coherent (N.run node (c ++ [(f, b)])) ∨
      ∀ t ∈ N.turns f (N.run node c) b, N.endsEarly f t = false) :
    N.Settled (N.run node calls) := by
  induction calls using List.reverseRecOn with
  | nil => exact pending_start N node
  | append_singleton calls c ih =>
    have hbefore := ih fun c' f b hc' => h c' f b (hc'.trans (List.prefix_append ..))
    have hlast := h calls c.1 c.2 List.prefix_rfl
    have hrun : N.run node (calls ++ [c]) = (N.processBlock c.1 (N.run node calls) c.2).1 := by
      rw [run, List.foldl_append]
      rfl
    rw [hrun] at hlast ⊢
    rcases hbefore.processBlock hN c.1 c.2 with ⟨-, hpending⟩ | ⟨⟨t, ht, hearly⟩, hnot⟩
    · exact hpending
    · rcases hlast with hcoherent | hturns
      · exact absurd hcoherent hnot
      · exact absurd hearly (by rw [hturns t ht]; decide)

/-- The chain is that of a block with this hash. -/
def isTop (h : Uint256) (c : Chain) : Bool := c.head?.any fun b => b.hashBlock == h

/-- A node that checks a block as `CheckBlock` does, rewinds as `RewindRegistry` does without snapshots, and accepts a
block on a known block. The state is the block index and the temporary registry. The index record of a block has
the sum of its outputs, so `AcceptBlock` throws if `GetValueOut` does. -/
def plainNode : ProcessApi (List Chain × QPRegistry) where
  getHash := spendCtx.blockHash
  hashGenesisBlock := spendCtx.env.hashGenesisBlock
  permitDirtyBootstrap := false
  fUseSyncCheckpoints := false
  isIndexed node h := node.1.any (isTop h)
  extendsBest _ _ := false
  eraseIndex node h := (node.1.filter (!isTop h ·), node.2)
  stakeIsSeen _ _ := false
  wantedByPendingSyncCheckpoint _ _ := false
  check f node b :=
    let fFull := !f.fJustCheck
    let pindexBest := QPRegistry.soloBlock 3695100
    let fPassed := (spendCtx.checkBlock true true fFull fFull pindexBest pindexBest (.empty spendCtx.env)
      b).2.isSome
    (node, if fPassed then .accepted else .rejected)
  registryHash node := node.2.hashBlock
  rewindRegistry node h :=
    let c := (node.1.find? (isTop h)).getD []
    match QPRegistry.rewindRegistry spendCtx.env (fun _ => spendCtx.now) (fun _ => true) c c .noSnaps ∅
      (node.2.setNull spendCtx.env) with
    | .ok (r, _) => ((node.1, r), .accepted)
    | .error (r, _) => ((node.1, r), .rejected)
  acceptBlock _ node b :=
    let hash := spendCtx.blockHash b
    match node.1.find? (isTop b.hashPrevBlock) with
    | none => (node, .rejected)
    | some c =>
      if node.1.any (isTop hash) then (node, .rejected)
      else if b.vtx.all fun tx => tx.getValueOutOrThrow.isSome then
        (((spendCtx.blockIndex b :: c) :: node.1, { node.2 with hashBlock := hash }), .accepted)
      else (node, .thrown)
  finish node := (node, .accepted)

theorem plainNode_lawful : plainNode.Lawful where
  eraseIndex node h k hne hk := by
    simp only [plainNode, List.any_eq_true, List.mem_filter] at hk ⊢
    obtain ⟨c, hc, htop⟩ := hk
    refine ⟨c, ⟨hc, ?_⟩, htop⟩
    cases c with
    | nil => cases htop
    | cons b rest =>
      obtain rfl : b.hashBlock = k := by simpa [isTop] using htop
      simpa [isTop] using hne
  check _ _ _ _ hk := hk
  rewindRegistry node h k hk := by
    dsimp only [plainNode]
    split <;> exact hk
  acceptBlock f node b k hk := by
    dsimp only [plainNode] at hk ⊢
    split
    · exact hk
    split_ifs
    · exact hk
    · exact Bool.or_eq_true_iff.2 (.inr hk)
    · exact hk
  finish _ _ hk := hk
  accepted f node b h := by
    dsimp only [plainNode] at h ⊢
    split at h
    · cases h
    split_ifs at h ⊢
    simp [isTop, CheckBlockCtx.blockIndex]

def parentBlock : CBlock where
  nVersion := 8
  hashPrevBlock := 77
  hashMerkleRoot := 0
  nTime := 1422160502
  nBits := 0
  nNonce := 0
  nHeight := 5000000
  nStakerID := 1
  vtx := []
  vchBlockSig := []

def childBlock (vtx : List CTransaction) : CBlock :=
  { parentBlock with
    hashPrevBlock := spendCtx.blockHash parentBlock
    hashMerkleRoot := (vtx.map fun tx => tx.getHash rollingHash).headD 0
    nTime := 1422160507
    nHeight := 5000001
    vtx := vtx }

def owingTx : CTransaction := { bareTx (-1000000) with nVersion := 4 }

/-- The blocks arrive before their parent and are checked without the registry, then the parent arrives. -/
def lateParent (children : List CBlock) : List (ProcessFlags × CBlock) :=
  (children ++ [parentBlock]).map fun b => ({ fJustCheck := true }, b)

def plainStart : List Chain × QPRegistry :=
  ([[QPRegistry.soloBlock 76]], { QPRegistry.empty spendCtx.env with hashBlock := 77 })

end ProcessApi

end Stealth

import Mathlib.Data.List.Infix
import Stealth.Chain.Spends

/-!
What the steps of `SetBestChain` read, and how they fail: because a block does not connect or for another
reason.
-/

namespace Stealth

open Fallible

/-- A property of the node that is left when a block does not connect. -/
def OnNotConnected (P : Node → Prop) : Failure → Node → Prop
  | .notConnected _, n => P n
  | .other, _ => True

def FailsOther {α : Type} (x : Run α) : Prop := ∀ P, Spec (fun _ => True) (OnNotConnected P) x

namespace FailsOther

variable {α β γ : Type}

theorem bind {x : Run α} {g : α → Run β} (hx : FailsOther x) (hg : ∀ a, FailsOther (g a)) :
    FailsOther (x >>= g) :=
  fun P => (hx P).bind fun a _ => hg a P

theorem ok (a : α) : FailsOther (.ok a : Run α) := fun _ => trivial

theorem other (n : Node) : FailsOther (.error (.other, n) : Run α) := fun _ => trivial

theorem foldlM {f : α → γ → Run α} (hf : ∀ a c, FailsOther (f a c)) (l : List γ) (a : α) :
    FailsOther (l.foldlM f a) :=
  fun P => Spec.foldlM (fun a _ c => hf a c P) l trivial

theorem reading (n : Node) (read : Option (CDiskBlockIndex × BlockDB)) : FailsOther (n.reading read) := by
  cases read with
  | none => exact other _
  | some x => exact ok _

theorem readHead (n : Node) (c : MemChain) : FailsOther (n.readHead c) := by
  cases c with
  | nil => exact other _
  | cons m c => exact reading n _

theorem updateRegistry (E : ChainEnv) (hash hashPrev : Uint256) (r : QPRegistry) (n : Node) :
    FailsOther (updateRegistry E hash hashPrev r n) :=
  (reading n _).bind fun _ => (reading _ _).bind fun _ => ok _

theorem link (n : Node) (c : MemChain) : FailsOther (link n c) :=
  (readHead _ c).bind fun _ => ok _

theorem unlink (n : Node) (c : MemChain) : FailsOther (unlink n c) :=
  (readHead _ c).bind fun _ => ok _

theorem invalidChainFound (c : MemChain) (n : Node) : FailsOther (invalidChainFound c n) := by
  refine (readHead n c).bind fun _ => ?_
  dsimp only
  split <;> exact ok _

theorem catchUp (E : ChainEnv) (stop : Option Uint256) (hashNewBest : Uint256) :
    ∀ (k : Nat) (hash : Uint256) (r : QPRegistry) (n : Node),
      FailsOther (catchUp E stop hashNewBest k hash r n)
  | 0, _, _, _ => ok _
  | k + 1, hash, r, n => by
    rw [Stealth.catchUp]
    split
    · exact ok _
    · split
      · exact ok _
      · refine (updateRegistry E _ hash r n).bind fun _ => ?_
        dsimp only
        split
        · exact other _
        · split
          · exact ok _
          · exact catchUp E stop hashNewBest k _ _ _

theorem connectSecondary (E : ChainEnv) : ∀ (queue : List MemChain) (best : MemChain × CDiskBlockIndex)
    (r : QPRegistry) (n : Node), FailsOther (connectSecondary E queue best r n)
  | [], _, _, _ | [] :: _, _, _, _ | [_] :: _, _, _, _ => by
    rw [Stealth.connectSecondary.eq_def]
    exact ok _
  | (m :: p :: rest) :: queue, best, r, n => by
    rw [Stealth.connectSecondary]
    refine (reading n _).bind fun _ => ?_
    dsimp only
    split
    · exact ok _
    · split
      · exact (reading _ _).bind fun _ => ok _
      · refine (updateRegistry E m.hashBlock p.hashBlock _ _).bind fun _ => ?_
        split
        · exact other _
        · exact connectSecondary E queue best _ _

end FailsOther

/-- A property of the node that reading records keeps. -/
structure KeptByReads (I : Node → Prop) : Prop where
  readIndex : ∀ {n : Node}, I n → ∀ hash P, Spec (fun x => I x.2) (OnNotConnected P) (n.readIndex hash)
  readIndexLocal : ∀ {n : Node}, I n → ∀ hash P,
    Spec (fun x => I x.2) (OnNotConnected P) (n.readIndexLocal hash)

theorem KeptByReads.spec_connectBlock {I J : Node → Prop} (hI : KeptByReads I) (E : ChainEnv) {n : Node}
    (h : I n) (c : MemChain) (b : CBlock) (r : QPRegistry)
    (hwrite : ∀ n m p rec recPrev q, I n → J (writeConnected E b m p rec recPrev q n)) :
    Spec (fun x => J x.1) (OnNotConnected I) (connectBlock E c b r n) := by
  unfold connectBlock
  split
  · next m p rest =>
    refine (hI.readIndex h m.hashBlock I).bind fun x hx => ?_
    refine (hI.readIndex hx p.hashBlock I).bind fun y hy => ?_
    refine (hI.readIndexLocal hy p.hashBlock I).bind fun z hz => ?_
    dsimp only
    split
    · exact hz
    · split
      · exact hz
      · exact hwrite _ _ _ _ _ _ hz
  · trivial

theorem KeptByReads.spec_connectOne {I J P : Node → Prop} (hI : KeptByReads I) (E : ChainEnv)
    {st : Node × QPRegistry × List CTransaction} (h : I st.1) (c : MemChain)
    (hconnect : ∀ n b, I n → Spec (fun x => J x.1) (OnNotConnected P) (connectBlock E c b st.2.1 n))
    (hupdate : ∀ n hash hashPrev r, J n →
      Spec (fun x => J x.1) (OnNotConnected P) (updateRegistry E hash hashPrev r n)) :
    Spec (fun x => J x.1) (OnNotConnected P) (connectOne E st c) := by
  rcases c with _ | ⟨m, _ | ⟨p, rest⟩⟩
  · trivial
  · trivial
  · refine (hI.readIndexLocal h m.hashBlock P).bind fun z hz => ?_
    dsimp only
    split
    · trivial
    · next b _ =>
      refine (hconnect z.2 b hz).bind fun x hx => ?_
      refine (hupdate x.1 m.hashBlock p.hashBlock x.2 hx).bind fun y hy => ?_
      split
      · exact hy
      · trivial

/-- The node has only read since a state: nothing waits in its batch, and the cache says what the store
says. -/
structure OnlyRead (n₀ n : Node) : Prop where
  disk : n.db.txdb.disk = n₀.db.txdb.disk
  batch : n.db.txdb.activeBatch = n₀.db.txdb.activeBatch
  noWrites : n₀.db.txdb.activeBatch.getD [] = []
  coherent : Lru.Coherent n.db.mapCache (Disk.blockIndex n₀.db.txdb.disk)
  mapAddressBalances : n.mapAddressBalances = n₀.mapAddressBalances
  pnext : n.pnext = n₀.pnext
  mapBlockLookup : n.mapBlockLookup = n₀.mapBlockLookup
  best : n.best = n₀.best

namespace OnlyRead

variable {n₀ n : Node} {P : Node → Prop}

theorem view (h : OnlyRead n₀ n) : n.db.txdb.view = n₀.db.txdb.disk := by
  rw [KeyValue.Store.view, h.batch, h.noWrites, h.disk]
  rfl

theorem lookup (h : OnlyRead n₀ n) (hash : Uint256) :
    n.db.lookup n₀.db.txdb.disk hash = Disk.blockIndex n₀.db.txdb.disk hash :=
  congrFun h.coherent.through_eq hash

theorem withCache (h : OnlyRead n₀ n) {hash : Uint256} {r : CDiskBlockIndex}
    (hr : Disk.blockIndex n₀.db.txdb.disk hash = some r) :
    OnlyRead n₀ (n.withCache (Lru.use MAX_CACHE_SIZE n.db.mapCache hash r)) :=
  { h with coherent := h.coherent.use MAX_CACHE_SIZE hr }

/-- The record that is read is the one of the store. -/
abbrev Reads (n₀ : Node) (hash : Uint256) (x : CDiskBlockIndex × Node) : Prop :=
  Disk.blockIndex n₀.db.txdb.disk hash = some x.1 ∧ OnlyRead n₀ x.2

theorem spec_reading (h : OnlyRead n₀ n) (hash : Uint256) :
    Spec (Reads n₀ hash) (OnNotConnected P) (n.reading (n.db.readWith n₀.db.txdb.disk hash)) := by
  cases hx : n.db.readWith n₀.db.txdb.disk hash with
  | none => trivial
  | some x =>
    obtain ⟨r, hr, rfl⟩ := Option.map_eq_some_iff.1 hx
    rw [h.lookup] at hr
    exact ⟨hr, h.withCache hr⟩

theorem spec_readIndex (h : OnlyRead n₀ n) (hash : Uint256) :
    Spec (Reads n₀ hash) (OnNotConnected P) (n.readIndex hash) := by
  rw [Node.readIndex, BlockDB.readDiskBlockIndex, h.view]
  exact h.spec_reading hash

theorem spec_readIndexLocal (h : OnlyRead n₀ n) (hash : Uint256) :
    Spec (Reads n₀ hash) (OnNotConnected P) (n.readIndexLocal hash) := by
  rw [Node.readIndexLocal, BlockDB.readDiskBlockIndexLocal, h.disk]
  exact h.spec_reading hash

theorem spec_readHead (h : OnlyRead n₀ n) (c : MemChain) :
    Spec (fun x => (∃ m rest, c = m :: rest ∧ Disk.blockIndex n₀.db.txdb.disk m.hashBlock = some x.1) ∧
      OnlyRead n₀ x.2) (OnNotConnected P) (n.readHead c) := by
  cases c with
  | nil => trivial
  | cons m c =>
    exact (h.spec_readIndex m.hashBlock).mono (fun x hx => ⟨⟨m, c, rfl, hx.1⟩, hx.2⟩) fun _ _ hf => hf

theorem keptByReads : KeptByReads (OnlyRead n₀) where
  readIndex h hash _ := (h.spec_readIndex hash).mono (fun _ hx => hx.2) fun _ _ hf => hf
  readIndexLocal h hash _ := (h.spec_readIndexLocal hash).mono (fun _ hx => hx.2) fun _ _ hf => hf

theorem spec_connectBlock (E : ChainEnv) (h : OnlyRead n₀ n) (c : MemChain) (b : CBlock) (r : QPRegistry) :
    Spec (fun _ => True) (OnNotConnected (OnlyRead n₀)) (connectBlock E c b r n) :=
  keptByReads.spec_connectBlock (J := fun _ => True) E h c b r fun _ _ _ _ _ _ _ => trivial

theorem rewindToFork (h : OnlyRead n₀ n) (E : ChainEnv) (pfork : MemChain) :
    OnlyRead n₀ (rewindToFork E pfork n).1 := by
  rw [Stealth.rewindToFork]
  split <;> exact { h with }

theorem txnBegin (h : OnlyRead n₀ n) : OnlyRead n₀.txnBegin n.txnBegin :=
  { h with batch := rfl, noWrites := rfl }

theorem txnAbort (h : OnlyRead n₀.txnBegin n) (hnone : n₀.db.txdb.activeBatch = none) :
    OnlyRead n₀ n.txnAbort :=
  { h with batch := hnone.symm, noWrites := by rw [hnone]; rfl }

end OnlyRead

theorem suffix_of_stepBack {nForkHeight : Int} : ∀ {c c' : MemChain} {nLongerHeight nHeight : Int},
    stepBack nForkHeight c nLongerHeight = some (c', nHeight) → c' <:+ c
  | [], c', nLongerHeight, nHeight, h | [_], c', nLongerHeight, nHeight, h => by
    rw [stepBack.eq_def] at h
    dsimp only at h
    split at h
    · cases h
    · cases h
      exact List.suffix_refl _
  | m :: p :: rest, c', nLongerHeight, nHeight, h => by
    rw [stepBack] at h
    split at h
    · exact (suffix_of_stepBack h).trans (List.suffix_cons m _)
    · cases h
      exact List.suffix_refl _

theorem suffix_of_findFork : ∀ {c plonger pfork : MemChain} {nForkHeight nLongerHeight : Int},
    findFork c nForkHeight plonger nLongerHeight = some pfork →
      pfork ≠ [] ∧ pfork <:+ c ∧ pfork <:+ plonger
  | [], _, _, _, _, h => by cases h
  | f :: below, plonger, pfork, nForkHeight, nLongerHeight, h => by
    rw [findFork] at h
    split at h
    · next heq =>
      cases h
      exact ⟨List.cons_ne_nil f below, List.suffix_refl _, heq ▸ List.suffix_refl _⟩
    · split at h
      · cases h
      · next plonger' nHeight hback =>
        have hsuffix := suffix_of_stepBack hback
        split at h
        · next heq =>
          cases h
          exact ⟨List.cons_ne_nil f below, List.suffix_refl _, heq ▸ hsuffix⟩
        · split at h
          · cases h
          · obtain ⟨hne, hbelow, hlonger⟩ := suffix_of_findFork h
            exact ⟨hne, hbelow.trans (List.suffix_cons f below), hlonger.trans hsuffix⟩

theorem findFork_cons (m : CBlockMemIndex) {c : MemChain} (hc : c ≠ []) (nHeight : Int) :
    findFork c nHeight (m :: c) (nHeight + 1) = some c := by
  obtain ⟨f, below, rfl⟩ := List.exists_cons_of_ne_nil hc
  have hne : ¬ f :: below = m :: f :: below := fun heq => by
    have hlen := congrArg List.length heq
    simp at hlen
  have hback : stepBack nHeight (m :: f :: below) (nHeight + 1) = some (f :: below, nHeight) := by
    rw [stepBack, if_pos (by omega), Int.add_sub_cancel]
    cases below with
    | nil =>
      rw [stepBack.eq_def]
      exact if_neg (Int.lt_irrefl nHeight)
    | cons p rest => rw [stepBack, if_neg (Int.lt_irrefl nHeight)]
  rw [findFork, if_neg hne, hback]
  exact if_pos rfl

theorem findFork_self {c : MemChain} (hc : c ≠ []) (nHeight nHeight' : Int) :
    findFork c nHeight c nHeight' = some c := by
  obtain ⟨f, below, rfl⟩ := List.exists_cons_of_ne_nil hc
  rw [findFork, if_pos rfl]

theorem above_self (c : MemChain) : above c c = [] := by
  cases c with
  | nil => rfl
  | cons m c => rw [above, if_pos rfl]

theorem above_cons (m : CBlockMemIndex) (c : MemChain) : above c (m :: c) = [m :: c] := by
  have hne : ¬ m :: c = c := fun heq => by
    have hlen := congrArg List.length heq
    simp at hlen
  rw [above, if_neg hne, above_self]

end Stealth

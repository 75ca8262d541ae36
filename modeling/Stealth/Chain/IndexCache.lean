import Mathlib.Data.Finset.Max
import Mathlib.Data.Prod.Lex
import Stealth.Chain.TxDB

/-!
The cache of block index records and its lookup set, the same entries ordered by the time of their last use.
Nothing is assumed about the clock.
-/

namespace Stealth.IndexCache

/-- Hashes are compared as numbers. -/
local instance hashOrder : LinearOrder Uint256 :=
  LinearOrder.lift' BitVec.toNat fun _ _ => BitVec.eq_of_toNat_eq

/-- The values of `setLookup` are compared by time and then by hash. -/
structure Cache where
  mapCache : Map Uint256 (Int × CDiskBlockIndex)
  setLookup : Finset (Int ×ₗ Uint256)

def start : Cache := ⟨∅, ∅⟩

/-- What the source says never happens: a cache element without a lookup value, a lookup value without a
cache element, no lookup value in a full cache, and sizes that differ. -/
inductive Fault where
  | noLookup | noElement | noOldest | sizesDiffer
  deriving DecidableEq

variable (hash : Uint256) (r : CDiskBlockIndex) (nMicroTime : Int) (c : Cache)

def drop (nTime : Int) : Cache :=
  ⟨c.mapCache.erase hash, c.setLookup.erase (toLex (nTime, hash))⟩

def removeFromCacheLocked : Except Fault (Bool × Cache) :=
  match c.mapCache[hash]? with
  | none => .ok (false, c)
  | some (nTime, _) =>
    if toLex (nTime, hash) ∈ c.setLookup then .ok (true, drop hash c nTime) else .error .noLookup

def evictOldestIfFullLocked : Except Fault Cache :=
  if c.mapCache.size < MAX_CACHE_SIZE then .ok c
  else
    match c.setLookup.min with
    | ⊤ => .error .noOldest
    | (oldest : Int ×ₗ Uint256) =>
      match c.mapCache[(ofLex oldest).2]? with
      | none => .error .noElement
      | some _ => .ok (drop (ofLex oldest).2 c (ofLex oldest).1)

def put : Cache :=
  ⟨c.mapCache.insert hash (nMicroTime, r), insert (toLex (nMicroTime, hash)) c.setLookup⟩

def insertIntoCacheLocked : Except Fault Cache :=
  let c' := put hash r nMicroTime c
  if c'.setLookup.card = c'.mapCache.size then .ok c' else .error .sizesDiffer

def makeRoom : Except Fault Cache := do
  let (fRemoved, c) ← removeFromCacheLocked hash c
  if fRemoved then return c else evictOldestIfFullLocked c

/-- The section at the end of a read or a write of the database. -/
def store : Except Fault Cache := do
  let c ← makeRoom hash c
  insertIntoCacheLocked hash r nMicroTime c

inductive Reply where
  | found (r : CDiskBlockIndex)
  | written
  | refused
  | thrown

def failure (fStrict : Bool) : Reply := if fStrict then .thrown else .refused

/-- A call with what it meets: whether a read gets the lock at once and what it finds in the database, or
whether the database takes a write, and the time that the clock shows. -/
inductive Call where
  | read (hash : Uint256) (fStrict lockCache : Bool) (stored : Option CDiskBlockIndex) (nMicroTime : Int)
  | write (hash : Uint256) (r : CDiskBlockIndex) (fStrict fWritten : Bool) (nMicroTime : Int)

def readDiskBlockIndex (fStrict lockCache : Bool) (stored : Option CDiskBlockIndex) :
    Except Fault (Reply × Cache) :=
  match if lockCache then c.mapCache[hash]? else none with
  | some (_, r) => do
    let (_, c) ← removeFromCacheLocked hash c
    let c ← insertIntoCacheLocked hash r nMicroTime c
    return (.found r, c)
  | none =>
    match stored with
    | none => .ok (failure fStrict, c)
    | some r => do return (.found r, ← store hash r nMicroTime c)

def writeDiskBlockIndex (fStrict fWritten : Bool) : Except Fault (Reply × Cache) :=
  if fWritten then do return (.written, ← store hash r nMicroTime c) else .ok (failure fStrict, c)

def exec (c : Cache) : Call → Except Fault (Reply × Cache)
  | .read hash fStrict lockCache stored nMicroTime =>
    readDiskBlockIndex hash nMicroTime c fStrict lockCache stored
  | .write hash r fStrict fWritten nMicroTime => writeDiskBlockIndex hash r nMicroTime c fStrict fWritten

def runCalls : Cache → List Call → Except Fault Cache
  | c, [] => .ok c
  | c, call :: calls => do
    let (_, c) ← exec c call
    runCalls c calls

/-- The lookup values are the times and hashes of the cache elements. -/
def InStep (c : Cache) : Prop :=
  ∀ nTime hash, toLex (nTime, hash) ∈ c.setLookup ↔ ∃ r, c.mapCache[hash]? = some (nTime, r)

variable {hash r nMicroTime c} {c' : Cache} {nTime : Int}

theorem InStep.drop (h : InStep c) (hr : c.mapCache[hash]? = some (nTime, r)) : InStep (drop hash c nTime) := by
  intro t k
  simp only [IndexCache.drop, Finset.mem_erase, getElem?_erase, h t k,
    Std.LawfulEqCmp.compare_eq_iff_eq]
  by_cases hk : hash = k
  · subst hk
    rw [hr]
    grind
  · have hne : toLex (t, k) ≠ toLex (nTime, hash) := fun heq => hk (congrArg Prod.snd (toLex.injective heq)).symm
    simp [hk, hne]

theorem InStep.put (h : InStep c) (hnone : c.mapCache[hash]? = none) : InStep (put hash r nMicroTime c) := by
  intro t k
  simp only [IndexCache.put, Finset.mem_insert, getElem?_insert, h t k,
    Std.LawfulEqCmp.compare_eq_iff_eq]
  by_cases hk : hash = k
  · subst hk
    simp [hnone, eq_comm]
  · have hne : toLex (t, k) ≠ toLex (nMicroTime, hash) := fun heq => hk (congrArg Prod.snd (toLex.injective heq)).symm
    simp [hk, hne]

theorem InStep.card_eq (h : InStep c) : c.setLookup.card = c.mapCache.size := by
  have hset : c.setLookup = (c.mapCache.toList.map fun e => toLex (e.2.1, e.1)).toFinset := by
    ext v
    obtain ⟨t, k, rfl⟩ : ∃ t k, v = toLex (t, k) := ⟨(ofLex v).1, (ofLex v).2, rfl⟩
    rw [h t k]
    simp only [List.mem_toFinset, List.mem_map, Prod.exists, mem_toList_iff_getElem?_eq_some]
    constructor
    · rintro ⟨r, hr⟩
      exact ⟨k, t, r, hr, rfl⟩
    · rintro ⟨k', t', r, hr, heq⟩
      cases heq
      exact ⟨r, hr⟩
  have hnodup : (c.mapCache.toList.map fun e => toLex (e.2.1, e.1)).Nodup := by
    refine List.pairwise_map.2 ((Std.ExtTreeMap.distinct_keys_toList (t := c.mapCache)).imp fun hne heq => ?_)
    exact hne (Std.LawfulEqCmp.compare_eq_iff_eq.2 (Prod.ext_iff.1 (toLex.injective heq)).2)
  rw [hset, List.toFinset_card_of_nodup hnodup, List.length_map, Std.ExtTreeMap.length_toList]

/-- The invariant: the map and the set describe the same entries, of which there are not too many. -/
structure Coherent (c : Cache) : Prop where
  inStep : InStep c
  card : c.setLookup.card = c.mapCache.size
  size : c.mapCache.size ≤ MAX_CACHE_SIZE

def Oldest (c : Cache) (hash : Uint256) : Prop :=
  ∀ nTime r, c.mapCache[hash]? = some (nTime, r) →
    ∀ (hash' : Uint256) nTime' r', c.mapCache[hash']? = some (nTime', r') → nTime ≤ nTime'

/-- Every entry but the one of `hash` stays as it is, or it was an oldest one and is gone. -/
def LosesOldest (hash : Uint256) (c c' : Cache) : Prop :=
  ∀ k, k ≠ hash → c'.mapCache[k]? = c.mapCache[k]? ∨ c'.mapCache[k]? = none ∧ Oldest c k

theorem getElem?_drop (hash : Uint256) (c : Cache) (nTime : Int) (k : Uint256) :
    (drop hash c nTime).mapCache[k]? = if hash = k then none else c.mapCache[k]? := by
  simp only [drop, getElem?_erase, Std.LawfulEqCmp.compare_eq_iff_eq]

theorem size_drop (hr : c.mapCache[hash]? = some (nTime, r)) :
    (drop hash c nTime).mapCache.size < c.mapCache.size := by
  have hmem : hash ∈ c.mapCache := mem_iff_isSome_getElem?.2 (by rw [hr]; rfl)
  have hpos : c.mapCache.size ≠ 0 := fun h0 => by
    rw [Std.ExtTreeMap.eq_empty_iff_size_eq_zero.2 h0] at hmem
    exact Std.ExtTreeMap.not_mem_empty hmem
  rw [drop, Std.ExtTreeMap.size_erase, if_pos (Std.ExtTreeMap.mem_iff_contains.1 hmem)]
  omega

/-- A cache with room for an entry of `hash`, made from `c`. -/
structure RoomFor (hash : Uint256) (c c' : Cache) : Prop where
  inStep : InStep c'
  size : c'.mapCache.size < MAX_CACHE_SIZE
  free : c'.mapCache[hash]? = none
  loses : LosesOldest hash c c'

theorem removeFromCacheLocked_spec (hc : Coherent c) (hash : Uint256) :
    (c.mapCache[hash]? = none ∧ removeFromCacheLocked hash c = .ok (false, c)) ∨
      (c.mapCache[hash]?.isSome ∧ ∃ c', removeFromCacheLocked hash c = .ok (true, c') ∧ RoomFor hash c c') := by
  rw [removeFromCacheLocked]
  cases hr : c.mapCache[hash]? with
  | none => exact .inl ⟨rfl, rfl⟩
  | some e =>
    obtain ⟨nTime, r⟩ := e
    refine .inr ⟨rfl, drop hash c nTime, ?_, hc.inStep.drop hr, Nat.lt_of_lt_of_le (size_drop hr) hc.size,
      ?_, fun k hk => .inl ?_⟩
    · dsimp only
      rw [if_pos ((hc.inStep nTime hash).2 ⟨r, hr⟩)]
    · rw [getElem?_drop, if_pos rfl]
    · rw [getElem?_drop, if_neg hk.symm]

theorem evictOldestIfFullLocked_spec (hc : Coherent c) (hnone : c.mapCache[hash]? = none) :
    ∃ c', evictOldestIfFullLocked c = .ok c' ∧ RoomFor hash c c' := by
  rw [evictOldestIfFullLocked]
  split
  · next hlt => exact ⟨c, rfl, hc.inStep, hlt, hnone, fun _ _ => .inl rfl⟩
  · next hfull =>
    cases hmin : c.setLookup.min with
    | top =>
      rw [Finset.min_eq_top] at hmin
      have hcard := hc.card
      rw [hmin, Finset.card_empty] at hcard
      exact absurd (hcard ▸ (by decide : 0 < MAX_CACHE_SIZE)) hfull
    | coe oldest =>
      obtain ⟨nTime, k, rfl⟩ : ∃ t k, oldest = toLex (t, k) := ⟨(ofLex oldest).1, (ofLex oldest).2, rfl⟩
      obtain ⟨r, hr⟩ := (hc.inStep nTime k).1 (Finset.mem_of_min hmin)
      have hold : Oldest c k := by
        intro t r₁ hk k' t' r' hk'
        rw [hr] at hk
        cases hk
        have hle := Finset.min_le_of_eq ((hc.inStep t' k').2 ⟨r', hk'⟩) hmin
        exact (Prod.Lex.le_iff.1 hle).elim Int.le_of_lt fun h => h.1.le
      refine ⟨drop k c nTime, ?_, hc.inStep.drop hr, Nat.lt_of_lt_of_le (size_drop hr) hc.size, ?_,
        fun k' _ => ?_⟩
      · dsimp only [ofLex_toLex]
        rw [hr]
      · rw [getElem?_drop, hnone, ite_self]
      · rw [getElem?_drop]
        split
        · next heq => exact .inr ⟨rfl, heq ▸ hold⟩
        · exact .inl rfl

/-- What every call does to a coherent cache. -/
def Served (c : Cache) (res : Except Fault (Reply × Cache)) : Prop :=
  ∃ reply c', res = .ok (reply, c') ∧ Coherent c' ∧
    ∀ hash, c'.mapCache[hash]? = none → (∃ e, c.mapCache[hash]? = some e) → Oldest c hash

theorem LosesOldest.put (h : LosesOldest hash c c') (r : CDiskBlockIndex) (nMicroTime : Int) (k : Uint256)
    (hnone : (put hash r nMicroTime c').mapCache[k]? = none) (hsome : ∃ e, c.mapCache[k]? = some e) :
    Oldest c k := by
  simp only [IndexCache.put, getElem?_insert, Std.LawfulEqCmp.compare_eq_iff_eq] at hnone
  split at hnone
  · cases hnone
  · next hne =>
    rcases h k (Ne.symm hne) with heq | ⟨-, hold⟩
    · obtain ⟨e, he⟩ := hsome
      rw [← heq, hnone] at he
      cases he
    · exact hold

theorem served_self (hc : Coherent c) (reply : Reply) : Served c (.ok (reply, c)) :=
  ⟨reply, c, rfl, hc, fun _ hnone ⟨e, he⟩ => by rw [he] at hnone; cases hnone⟩

theorem RoomFor.served (h : RoomFor hash c c') (r : CDiskBlockIndex) (nMicroTime : Int) (reply : Reply) :
    Served c (do return (reply, ← insertIntoCacheLocked hash r nMicroTime c')) := by
  have hstep : InStep (put hash r nMicroTime c') := h.inStep.put h.free
  have hsize : (put hash r nMicroTime c').mapCache.size ≤ MAX_CACHE_SIZE :=
    Nat.le_trans Std.ExtTreeMap.size_insert_le h.size
  refine ⟨reply, put hash r nMicroTime c', ?_, ⟨hstep, hstep.card_eq, hsize⟩, h.loses.put r nMicroTime⟩
  rw [insertIntoCacheLocked, if_pos hstep.card_eq]
  rfl

theorem served_store (hc : Coherent c) (hash : Uint256) (r : CDiskBlockIndex) (nMicroTime : Int)
    (reply : Reply) : Served c (do return (reply, ← store hash r nMicroTime c)) := by
  obtain ⟨c', heq, hroom⟩ : ∃ c', makeRoom hash c = .ok c' ∧ RoomFor hash c c' := by
    rw [makeRoom]
    rcases removeFromCacheLocked_spec hc hash with ⟨hnone, heq⟩ | ⟨-, c', heq, hroom⟩
    · rw [heq]
      exact evictOldestIfFullLocked_spec hc hnone
    · rw [heq]
      exact ⟨c', rfl, hroom⟩
  rw [store, heq]
  exact hroom.served r nMicroTime reply

theorem served_exec (hc : Coherent c) (call : Call) : Served c (exec c call) := by
  cases call with
  | read hash fStrict lockCache stored nMicroTime =>
    have hmiss : Served c (match stored with
        | none => .ok (failure fStrict, c)
        | some r => do return (.found r, ← store hash r nMicroTime c)) := by
      cases stored with
      | none => exact served_self hc _
      | some r => exact served_store hc hash r nMicroTime _
    rw [exec]
    unfold readDiskBlockIndex
    cases lockCache with
    | false => exact hmiss
    | true =>
      rw [if_pos rfl]
      rcases removeFromCacheLocked_spec hc hash with ⟨hnone, -⟩ | ⟨hsome, c', heq, hroom⟩
      · rw [hnone]
        exact hmiss
      · obtain ⟨⟨nTime, r⟩, hr⟩ := Option.isSome_iff_exists.1 hsome
        rw [hr, heq]
        exact hroom.served r nMicroTime _
  | write hash r fStrict fWritten nMicroTime =>
    rw [exec, writeDiskBlockIndex]
    cases fWritten with
    | false => exact served_self hc _
    | true => exact served_store hc hash r nMicroTime _

theorem coherent_runCalls (calls : List Call) : ∀ {c}, Coherent c →
    ∃ c', runCalls c calls = .ok c' ∧ Coherent c' := by
  induction calls with
  | nil => exact fun hc => ⟨_, rfl, hc⟩
  | cons call calls ih =>
    intro c hc
    obtain ⟨reply, c₁, heq, hc₁, -⟩ := served_exec hc call
    rw [runCalls, heq]
    exact ih hc₁

theorem coherent_start : Coherent start where
  inStep t k := by simp [start]
  card := rfl
  size := Nat.zero_le _

/-- After any calls with any clock values the cache is coherent, no assertion and no error that should never
happen is met on the way or by the next call, and only an oldest entry is ever dropped. -/
theorem runCalls_coherent (calls : List Call) :
    ∃ c, runCalls start calls = .ok c ∧ Coherent c ∧ ∀ call, Served c (exec c call) := by
  obtain ⟨c, heq, hc⟩ := coherent_runCalls calls coherent_start
  exact ⟨c, heq, hc, served_exec hc⟩

end Stealth.IndexCache

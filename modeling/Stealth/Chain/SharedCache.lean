import Stealth.Chain.TxDB

/-!
Block index records through one cache, with a batch for each handle. The cache takes a write before it is
committed and keeps it when the batch is aborted.
-/

namespace Stealth

variable {committed : Uint256 → Option CDiskBlockIndex}
  {p : Option (Uint256 → Option CDiskBlockIndex)} {r : CDiskBlockIndex} {hash : Uint256}

/-- The store, the batches of the handles, and the cache. -/
structure SharedDB (ι : Type) where
  disk : Disk
  batches : ι → Option (KeyValue.Batch DBKey.Value)
  mapCache : Lru.Cache Uint256 CDiskBlockIndex

/-- A call on the database. A read or a write without a handle opens one for itself. -/
inductive DBOp (ι : Type) where
  | txnBegin (i : ι)
  | txnCommit (i : ι)
  | txnAbort (i : ι)
  | read (i : Option ι) (hash : Uint256)
  | write (i : Option ι) (hash : Uint256) (r : CDiskBlockIndex)

variable {ι : Type}

namespace SharedDB

variable (s : SharedDB ι)

def start (disk : Disk) : SharedDB ι := ⟨disk, fun _ => none, []⟩

def handle (i : Option ι) : BlockDB := ⟨⟨s.disk, i.bind s.batches⟩, s.mapCache⟩

variable [DecidableEq ι]

def store (i : Option ι) (h : BlockDB) : SharedDB ι where
  disk := h.txdb.disk
  batches :=
    match i with
    | none => s.batches
    | some i => Function.update s.batches i h.txdb.activeBatch
  mapCache := h.mapCache

theorem store_touch (i : Option ι) (hash : Uint256) (r : CDiskBlockIndex) :
    s.store i ((s.handle i).touch hash r) =
      { s with mapCache := Lru.use MAX_CACHE_SIZE s.mapCache hash r } := by
  cases i with
  | none => rfl
  | some i =>
    rw [store]
    exact congrArg (fun b => SharedDB.mk s.disk b _) (Function.update_eq_self i s.batches)

/-- One call, with the record that a read returns. There is no result if an assertion of `TxnBegin` or
`TxnCommit` fails. -/
def step : DBOp ι → Option (SharedDB ι × List (Option CDiskBlockIndex))
  | .txnBegin i =>
    match s.batches i with
    | some _ => none
    | none =>
      let h := s.handle (some i)
      some (s.store (some i) { h with txdb := h.txdb.txnBegin }, [])
  | .txnCommit i =>
    match s.batches i with
    | none => none
    | some _ =>
      let h := s.handle (some i)
      some (s.store (some i) { h with txdb := h.txdb.txnCommit }, [])
  | .txnAbort i =>
    let h := s.handle (some i)
    some (s.store (some i) { h with txdb := h.txdb.txnAbort }, [])
  | .read i hash =>
    match (s.handle i).readDiskBlockIndex hash with
    | none => some (s, [none])
    | some (r, h) => some (s.store i h, [some r])
  | .write i hash r => some (s.store i ((s.handle i).writeDiskBlockIndex hash r), [])

def run : SharedDB ι → List (DBOp ι) → Option (SharedDB ι × List (Option CDiskBlockIndex))
  | s, [] => some (s, [])
  | s, op :: ops => do
    let (s, vRead) ← s.step op
    let (s, vReads) ← run s ops
    some (s, vRead ++ vReads)

end SharedDB

/-- What a transactional map has: the committed records, and for each handle with an open batch the records
that wait in it. -/
structure Versions (ι : Type) where
  committed : Uint256 → Option CDiskBlockIndex
  pending : ι → Option (Uint256 → Option CDiskBlockIndex)

namespace Versions

variable (v : Versions ι)

def start (disk : Disk) : Versions ι := ⟨fun hash => disk (.blockIndex hash), fun _ => none⟩

/-- The latest write that was committed or that waits in the batch of the handle. -/
def value (i : Option ι) (hash : Uint256) : Option CDiskBlockIndex :=
  ((i.bind v.pending).bind fun p => p hash).or (v.committed hash)

def Writes (i : ι) (hash : Uint256) : Prop := ∃ p, v.pending i = some p ∧ (p hash).isSome

def Owns (i : Option ι) (hash : Uint256) : Prop := ∀ j, v.Writes j hash → i = some j

variable [DecidableEq ι]

def step : DBOp ι → Versions ι
  | .txnBegin i => { v with pending := Function.update v.pending i (some fun _ => none) }
  | .txnCommit i => ⟨v.value (some i), Function.update v.pending i none⟩
  | .txnAbort i => { v with pending := Function.update v.pending i none }
  | .read _ _ => v
  | .write i hash r =>
    match i.bind fun i => (v.pending i).map fun p => (i, p) with
    | none => { v with committed := Function.update v.committed hash (some r) }
    | some (i, p) => { v with pending := Function.update v.pending i (some (Function.update p hash (some r))) }

def reads : Versions ι → List (DBOp ι) → List (Option CDiskBlockIndex)
  | _, [] => []
  | v, .read i hash :: ops => v.value i hash :: reads v ops
  | v, op :: ops => reads (v.step op) ops

/-- No handle touches a block of which another one has a write, and no batch with a write is aborted. -/
def Allowed : DBOp ι → Prop
  | .txnAbort i => ∀ hash, ¬ v.Writes i hash
  | .read i hash | .write i hash _ => v.Owns i hash
  | _ => True

def AllAllowed : Versions ι → List (DBOp ι) → Prop
  | _, [] => True
  | v, op :: ops => v.Allowed op ∧ AllAllowed (v.step op) ops

end Versions

def Waits : Option (KeyValue.Batch DBKey.Value) → Option (Uint256 → Option CDiskBlockIndex) → Prop
  | none, none => True
  | some batch, some p => ∀ hash, KeyValue.scan (.blockIndex hash) batch = (p hash).map some
  | _, _ => False

/-- The store and the batches have the records of the transactional map. -/
structure Holds (s : SharedDB ι) (v : Versions ι) : Prop where
  disk : ∀ hash, s.disk (.blockIndex hash) = v.committed hash
  batches : ∀ i, Waits (s.batches i) (v.pending i)

namespace Holds

variable {s : SharedDB ι} {v : Versions ι}

theorem view (h : Holds s v) (i : Option ι) (hash : Uint256) :
    (s.handle i).txdb.view (.blockIndex hash) = v.value i hash := by
  have hi : Waits (i.bind s.batches) (i.bind v.pending) := by
    cases i with
    | none => trivial
    | some i => exact h.batches i
  rw [← KeyValue.Store.read_eq, KeyValue.Store.read, SharedDB.handle, Versions.value]
  dsimp only
  revert hi
  cases i.bind s.batches with
  | none =>
    cases i.bind v.pending with
    | none => exact fun _ => h.disk hash
    | some p => exact False.elim
  | some batch =>
    cases i.bind v.pending with
    | none => exact False.elim
    | some p =>
      intro hi
      dsimp only
      rw [hi hash, h.disk hash, Option.bind_some]
      cases p hash <;> rfl

theorem blockIndex_view (h : Holds s v) (i : Option ι) (hash : Uint256) :
    Disk.blockIndex (s.handle i).txdb.view hash =
      (v.value i hash).map CDiskBlockIndex.setExtendedSerialization :=
  congrArg (Option.map CDiskBlockIndex.setExtendedSerialization) (h.view i hash)

variable [DecidableEq ι]

theorem update (h : Holds s v) (i : ι) {disk : Disk} {b : Option (KeyValue.Batch DBKey.Value)}
    {c : Lru.Cache Uint256 CDiskBlockIndex} (hdisk : ∀ hash, disk (.blockIndex hash) = committed hash)
    (hb : Waits b p) :
    Holds ⟨disk, Function.update s.batches i b, c⟩ ⟨committed, Function.update v.pending i p⟩ := by
  refine ⟨hdisk, fun j => ?_⟩
  dsimp only
  by_cases hj : j = i
  · subst hj
    rw [Function.update_self, Function.update_self]
    exact hb
  · rw [Function.update_of_ne hj, Function.update_of_ne hj]
    exact h.batches j

omit [DecidableEq ι] in
theorem update_disk (h : Holds s v) (hash : Uint256) (r : CDiskBlockIndex) (hash' : Uint256) :
    Function.update s.disk (.blockIndex hash) (some r) (.blockIndex hash') =
      Function.update v.committed hash (some r) hash' := by
  by_cases hh : hash' = hash
  · subst hh
    have hself : Function.update v.committed hash' (some r) hash' = some r := Function.update_self ..
    rw [hself]
    exact Function.update_self (DBKey.blockIndex hash') _ s.disk
  · rw [Function.update_of_ne hh]
    exact (Function.update_of_ne (fun heq => hh (DBKey.blockIndex.inj heq)) _ s.disk).trans (h.disk hash')

theorem write (h : Holds s v) (i : Option ι) (hash : Uint256) (r : CDiskBlockIndex) :
    Holds (s.store i ((s.handle i).writeDiskBlockIndex hash r)) (v.step (.write i hash r)) := by
  cases i with
  | none => exact ⟨h.update_disk hash r, h.batches⟩
  | some i =>
    have hi := h.batches i
    cases hb : s.batches i with
    | none =>
      have hp : v.pending i = none := by
        rw [hb] at hi
        cases hp : v.pending i with
        | none => rfl
        | some p => rw [hp] at hi; exact hi.elim
      have hsame := h.update i (b := none) (p := none) (c := (s.store (some i)
        ((s.handle (some i)).writeDiskBlockIndex hash r)).mapCache) (h.update_disk hash r) trivial
      rw [Function.update_eq_self_iff (f := v.pending) |>.2 hp.symm] at hsame
      simpa [SharedDB.store, SharedDB.handle, BlockDB.writeDiskBlockIndex, BlockDB.touch,
        KeyValue.Store.put, Versions.step, hb, hp] using hsame
    | some batch =>
      rw [hb] at hi
      cases hp : v.pending i with
      | none => rw [hp] at hi; exact hi.elim
      | some p =>
        rw [hp] at hi
        have hwaits : Waits (some (⟨.blockIndex hash, some r⟩ :: batch))
            (some (Function.update p hash (some r))) := by
          intro hash'
          rw [KeyValue.scan]
          split
          · next heq =>
            cases heq
            rw [Function.update_self]
            rfl
          · next hne =>
            rw [Function.update_of_ne fun heq => hne (congrArg DBKey.blockIndex heq.symm)]
            exact hi hash'
        have hnew := h.update i (c := (s.store (some i)
          ((s.handle (some i)).writeDiskBlockIndex hash r)).mapCache) h.disk hwaits
        simpa [SharedDB.store, SharedDB.handle, BlockDB.writeDiskBlockIndex, BlockDB.touch,
          KeyValue.Store.put, Versions.step, hb, hp] using hnew

end Holds

namespace CDiskBlockIndex

@[simp] theorem setExtendedSerialization_idem (r : CDiskBlockIndex) :
    r.setExtendedSerialization.setExtendedSerialization = r.setExtendedSerialization := by
  simp [setExtendedSerialization, UInt32.or_assoc]

end CDiskBlockIndex

def extended (r : Option CDiskBlockIndex) : Option CDiskBlockIndex :=
  r.map CDiskBlockIndex.setExtendedSerialization

namespace Versions

variable {v : Versions ι} {i j : Option ι} {hash : Uint256}

theorem value_of_not_writes (h : ∀ j, i = some j → ¬ v.Writes j hash) : v.value i hash = v.committed hash := by
  rw [value]
  cases i with
  | none => rfl
  | some j =>
    cases hp : v.pending j with
    | none => simp [hp]
    | some p =>
      have hnone : p hash = none := by
        rw [← Option.not_isSome_iff_eq_none]
        exact fun hsome => h j rfl ⟨p, hp, hsome⟩
      simp [hp, hnone]

theorem Owns.value_eq (hi : v.Owns i hash) (hj : v.Owns j hash) : v.value i hash = v.value j hash := by
  by_cases h : ∃ k, v.Writes k hash
  · obtain ⟨k, hk⟩ := h
    rw [hi k hk, hj k hk]
  · rw [value_of_not_writes fun k _ hk => h ⟨k, hk⟩, value_of_not_writes fun k _ hk => h ⟨k, hk⟩]

end Versions

/-- The cache has what every handle sees that may touch the block. -/
structure Cached (s : SharedDB ι) (v : Versions ι) : Prop extends Holds s v where
  single : ∀ {i j hash}, v.Writes i hash → v.Writes j hash → i = j
  fresh : ∀ {hash r i}, Lru.find s.mapCache hash = some r → v.Owns i hash →
    extended (v.value i hash) = extended (some r)

namespace Versions

variable [DecidableEq ι] {v : Versions ι} {hash : Uint256}

theorem writes_update_iff {i j : ι} : Writes ⟨committed, Function.update v.pending i p⟩ j hash ↔
      (j = i ∧ ∃ q, p = some q ∧ (q hash).isSome) ∨ (j ≠ i ∧ v.Writes j hash) := by
  by_cases hj : j = i
  · subst hj
    simp [Writes]
  · simp [Writes, hj]

theorem value_update_of_ne {i : ι} {j : Option ι} (hj : j ≠ some i) :
    value ⟨committed, Function.update v.pending i p⟩ j hash = value ⟨committed, v.pending⟩ j hash := by
  cases j with
  | none => rfl
  | some j => simp [value, Function.update_of_ne (fun h => hj (congrArg some h))]

theorem value_update_none {i : ι} (h : ¬ v.Writes i hash)
    (hp : ∀ q, p = some q → q hash = none) (j : Option ι) :
    value ⟨v.committed, Function.update v.pending i p⟩ j hash = v.value j hash := by
  by_cases hj : j = some i
  · subst hj
    have hv : v.value (some i) hash = v.committed hash :=
      value_of_not_writes fun k hk => by cases hk; exact h
    rw [hv]
    apply value_of_not_writes
    rintro k ⟨⟩ ⟨q, hq, hsome⟩
    dsimp only at hq
    rw [Function.update_self] at hq
    rw [hp q hq] at hsome
    cases hsome
  · exact value_update_of_ne hj

theorem writes_update_none {i j : ι} (h : ¬ v.Writes i hash) (hp : ∀ q, p = some q → q hash = none) :
    Writes ⟨committed, Function.update v.pending i p⟩ j hash ↔ v.Writes j hash := by
  rw [writes_update_iff]
  constructor
  · rintro (⟨-, q, hq, hsome⟩ | ⟨-, hw⟩)
    · rw [hp q hq] at hsome
      cases hsome
    · exact hw
  · intro hw
    exact .inr ⟨fun hj => h (hj ▸ hw), hw⟩

theorem step_write (v : Versions ι) (i : Option ι) (hash : Uint256) (r : CDiskBlockIndex) :
    (∃ k p, i = some k ∧ v.pending k = some p ∧ v.step (.write i hash r) =
      ⟨v.committed, Function.update v.pending k (some (Function.update p hash (some r)))⟩) ∨
    (∀ k, i = some k → v.pending k = none) ∧
      v.step (.write i hash r) = ⟨Function.update v.committed hash (some r), v.pending⟩ := by
  cases i with
  | none => exact .inr ⟨fun k hk => (by cases hk), rfl⟩
  | some k =>
    cases hp : v.pending k with
    | none =>
      refine .inr ⟨?_, by simp [step, hp]⟩
      rintro _ ⟨⟩
      exact hp
    | some p => exact .inl ⟨k, p, rfl, hp, by simp [step, hp]⟩

theorem write_of_ne {i : Option ι} {hash' : Uint256} (hne : hash' ≠ hash) :
    (∀ j, (v.step (.write i hash r)).Writes j hash' ↔ v.Writes j hash') ∧
      ∀ j, (v.step (.write i hash r)).value j hash' = v.value j hash' := by
  obtain ⟨k, p, rfl, hp, heq⟩ | ⟨-, heq⟩ := v.step_write i hash r
  · rw [heq]
    have hk : v.Writes k hash' ↔ (p hash').isSome := by simp [Writes, hp]
    refine ⟨fun j => ?_, fun j => ?_⟩
    · rw [writes_update_iff]
      by_cases hj : j = k
      · subst hj
        simp [hk, Function.update_of_ne hne]
      · simp [hj]
    · by_cases hj : j = some k
      · subst hj
        simp [value, hp, Function.update_of_ne hne]
      · rw [value_update_of_ne hj]
  · rw [heq]
    exact ⟨fun _ => Iff.rfl, fun j => by simp [value, Function.update_of_ne hne]⟩

/-- Afterwards only the writer has a write of the block, and who may touch it sees the record. -/
theorem write_self {i : Option ι} (h : v.Owns i hash) :
    (∀ j, (v.step (.write i hash r)).Writes j hash → i = some j) ∧
      ∀ j, (v.step (.write i hash r)).Owns j hash → (v.step (.write i hash r)).value j hash = some r := by
  obtain ⟨k, p, rfl, hp, heq⟩ | ⟨hnone, heq⟩ := v.step_write i hash r
  · rw [heq]
    refine ⟨fun j hj => ?_, fun j hj => ?_⟩
    · rw [writes_update_iff] at hj
      rcases hj with ⟨rfl, -⟩ | ⟨-, hj⟩
      · rfl
      · exact h j hj
    · have hk := hj k (writes_update_iff.2 (.inl ⟨rfl, _, rfl, by simp⟩))
      subst hk
      simp [value]
  · rw [heq]
    have hwrites : ∀ j, ¬ v.Writes j hash := by
      intro j hj
      obtain ⟨p, hp, -⟩ := id hj
      rw [hnone j (h j hj)] at hp
      cases hp
    refine ⟨fun j hj => h j hj, fun j _ => ?_⟩
    have hvalue : value ⟨Function.update v.committed hash (some r), v.pending⟩ j hash =
        Function.update v.committed hash (some r) hash := value_of_not_writes fun k _ => hwrites k
    rw [hvalue, Function.update_self]

end Versions

namespace Cached

variable [DecidableEq ι] {s s' : SharedDB ι} {v : Versions ι}

theorem update_none (h : Cached s v) {i : ι} {b : Option (KeyValue.Batch DBKey.Value)}
    (hi : ∀ hash, ¬ v.Writes i hash) (hp : ∀ hash q, p = some q → q hash = none) (hb : Waits b p) :
    Cached ⟨s.disk, Function.update s.batches i b, s.mapCache⟩
      ⟨v.committed, Function.update v.pending i p⟩ where
  toHolds := h.toHolds.update i h.disk hb
  single := by
    intro j k hash hj hk
    rw [Versions.writes_update_none (hi hash) (hp hash)] at hj hk
    exact h.single hj hk
  fresh := by
    intro hash r j hfind howns
    rw [Versions.value_update_none (hi hash) (hp hash)]
    refine h.fresh hfind fun k hk => howns k ?_
    rwa [Versions.writes_update_none (hi hash) (hp hash)]

theorem commit (h : Cached s v) (i : ι) :
    Cached ⟨(s.handle (some i)).txdb.view, Function.update s.batches i none, s.mapCache⟩
      (v.step (.txnCommit i)) where
  toHolds := h.toHolds.update i (h.view (some i)) trivial
  single := by
    intro j k hash hj hk
    rw [Versions.step, Versions.writes_update_iff] at hj hk
    exact h.single (hj.resolve_left fun hn => by simp at hn).2 (hk.resolve_left fun hn => by simp at hn).2
  fresh := by
    intro hash r j hfind howns
    rw [Versions.step] at howns ⊢
    by_cases hi : v.Writes i hash
    · -- what the batch has is now committed, and no other batch has the block
      have hother : ∀ k, ¬ Versions.Writes ⟨v.value (some i), Function.update v.pending i none⟩ k hash := by
        intro k hk
        rw [Versions.writes_update_iff] at hk
        obtain ⟨hne, hk⟩ := hk.resolve_left fun hn => by simp at hn
        exact hne (h.single hk hi)
      rw [Versions.value_of_not_writes fun k _ => hother k]
      exact h.fresh hfind fun k hk => congrArg some (h.single hi hk)
    · have hcommitted : v.value (some i) hash = v.committed hash :=
        Versions.value_of_not_writes fun k hk => by cases hk; exact hi
      have hvalue : Versions.value ⟨v.value (some i), Function.update v.pending i none⟩ j hash =
          v.value j hash := by
        rw [← Versions.value_update_none hi (p := none) (fun _ hq => by cases hq) j]
        simp only [Versions.value]
        rw [← Versions.value, hcommitted]
      rw [hvalue]
      refine h.fresh hfind fun k hk => howns k ?_
      rwa [Versions.writes_update_none hi fun _ hq => by cases hq]

theorem write (h : Cached s v) {i : Option ι} (howns : v.Owns i hash) :
    Cached (s.store i ((s.handle i).writeDiskBlockIndex hash r)) (v.step (.write i hash r)) where
  toHolds := h.toHolds.write i hash r
  single := by
    intro j k hash' hj hk
    by_cases hne : hash' = hash
    · subst hne
      have hwriter := (Versions.write_self (r := r) howns).1
      exact Option.some.inj ((hwriter j hj).symm.trans (hwriter k hk))
    · have hiff := (Versions.write_of_ne (i := i) (r := r) (v := v) hne).1
      exact h.single ((hiff j).1 hj) ((hiff k).1 hk)
  fresh := by
    intro hash' r' j hfind hj
    have hcache : Lru.find (Lru.use MAX_CACHE_SIZE s.mapCache hash r) hash' = some r' := hfind
    by_cases hne : hash' = hash
    · subst hne
      rw [Lru.find_use_self, Option.some.injEq] at hcache
      rw [(Versions.write_self howns).2 j hj, hcache]
    · obtain ⟨hiff, hvalue⟩ := Versions.write_of_ne (i := i) (r := r) (v := v) hne
      rw [hvalue]
      exact h.fresh (Lru.find_of_find_use (fun heq => hne heq.symm) hcache) fun k hk => hj k ((hiff k).2 hk)

omit [DecidableEq ι] in
theorem lookup (h : Cached s v) {i : Option ι} (howns : v.Owns i hash) :
    extended ((s.handle i).lookup (s.handle i).txdb.view hash) = extended (v.value i hash) := by
  rw [BlockDB.lookup, Lru.through]
  cases hfind : Lru.find (s.handle i).mapCache hash with
  | none =>
    rw [Option.none_or, h.blockIndex_view]
    cases v.value i hash with
    | none => rfl
    | some r => exact congrArg some r.setExtendedSerialization_idem
  | some r => exact (h.fresh hfind howns).symm

omit [DecidableEq ι] in
theorem touch (h : Cached s v) {i : Option ι} (howns : v.Owns i hash)
    (hr : extended (v.value i hash) = extended (some r)) :
    Cached { s with mapCache := Lru.use MAX_CACHE_SIZE s.mapCache hash r } v where
  disk := h.disk
  batches := h.batches
  single := h.single
  fresh := by
    intro hash' r' j hfind hj
    by_cases hne : hash' = hash
    · subst hne
      rw [Lru.find_use_self, Option.some.injEq] at hfind
      rw [hj.value_eq howns, hr, hfind]
    · exact h.fresh (Lru.find_of_find_use (fun heq => hne heq.symm) hfind) hj

theorem step (h : Cached s v) {op : DBOp ι} {vRead : List (Option CDiskBlockIndex)} (hop : v.Allowed op)
    (hstep : s.step op = some (s', vRead)) :
    Cached s' (v.step op) ∧ vRead.map extended = (v.reads [op]).map extended := by
  cases op with
  | txnBegin i =>
    rw [SharedDB.step] at hstep
    split at hstep
    · cases hstep
    · next hb =>
      cases hstep
      have hp : v.pending i = none := by
        have hwaits := h.batches i
        rw [hb] at hwaits
        cases hp : v.pending i with
        | none => rfl
        | some p => rw [hp] at hwaits; exact hwaits.elim
      refine ⟨h.update_none (fun hash hw => ?_) (fun _ q hq => by cases hq; rfl) fun _ => rfl, rfl⟩
      obtain ⟨p, hw, -⟩ := hw
      rw [hp] at hw
      cases hw
  | txnCommit i =>
    rw [SharedDB.step] at hstep
    split at hstep
    · cases hstep
    · cases hstep
      exact ⟨h.commit i, rfl⟩
  | txnAbort i =>
    cases hstep
    exact ⟨h.update_none hop (fun _ _ hq => by cases hq) trivial, rfl⟩
  | read i hash =>
    rw [SharedDB.step] at hstep
    have hlookup := h.lookup hop
    split at hstep
    · next hread =>
      cases hstep
      rw [Option.map_eq_none_iff.1 hread] at hlookup
      exact ⟨h, congrArg (fun x => [x]) hlookup⟩
    · next r db hread =>
      cases hstep
      obtain ⟨hr, rfl⟩ := BlockDB.readWith_eq_some hread
      rw [hr] at hlookup
      rw [SharedDB.store_touch]
      exact ⟨h.touch hop hlookup.symm, congrArg (fun x => [x]) hlookup⟩
  | write i hash r =>
    cases hstep
    exact ⟨h.write hop, rfl⟩

end Cached

namespace SharedDB

theorem cached_start (disk : Disk) : Cached (SharedDB.start disk : SharedDB ι) (Versions.start disk) where
  disk _ := rfl
  batches _ := trivial
  single := by
    rintro i j hash ⟨p, hp, -⟩
    cases hp
  fresh := by
    intro hash r i hfind
    cases hfind

variable [DecidableEq ι]

theorem reads_of_cached : ∀ {ops : List (DBOp ι)} {s s' : SharedDB ι} {v : Versions ι}
    {vReads : List (Option CDiskBlockIndex)}, Cached s v → v.AllAllowed ops → s.run ops = some (s', vReads) →
      vReads.map extended = (v.reads ops).map extended
  | [], _, _, _, _, _, _, hrun => by
    cases hrun
    rfl
  | op :: ops, s, s', v, vReads, h, hall, hrun => by
    obtain ⟨⟨s₁, vRead⟩, hstep, hthen⟩ := Option.bind_eq_some_iff.1 hrun
    obtain ⟨⟨s₂, vRest⟩, hrest, heq⟩ := Option.bind_eq_some_iff.1 hthen
    cases heq
    obtain ⟨h₁, hread⟩ := h.step hall.1 hstep
    have ih := reads_of_cached h₁ hall.2 hrest
    have hcons : v.reads (op :: ops) = v.reads [op] ++ (v.step op).reads ops := by
      cases op <;> rfl
    rw [hcons, List.map_append, List.map_append, hread, ih]

/-- Over any interleaving of calls through any number of handles, every read returns the latest write that was
committed or that waits in the batch of its handle, if no handle touches a block of which another one has a
write in its batch and no batch with a write of a block is aborted. -/
theorem reads_latest {disk : Disk} {ops : List (DBOp ι)} {s' : SharedDB ι}
    {vReads : List (Option CDiskBlockIndex)} (hrun : (start disk).run ops = some (s', vReads))
    (hallowed : (Versions.start disk).AllAllowed ops) :
    vReads.map extended = ((Versions.start disk).reads ops).map extended :=
  reads_of_cached (cached_start disk) hallowed hrun

def trustRecord (bnChainTrust : Int) : CDiskBlockIndex where
  hashBlock := 1
  nHeight := 1
  nTime := 0
  nStakerID := 0
  nMoneySupply := 0
  vDeets := []
  hashNext := 0
  nFile := 1
  nBlockPos := 0
  nVersion := 8
  nFlags := CDiskBlockIndex.BLOCK_EXTENDED_SER
  nMint := 0
  bnChainTrust := bnChainTrust

def trustDisk : Disk := Function.update (fun _ => none) (.blockIndex 1) (some (trustRecord 10))

def trustOps : List (DBOp Bool) := [.read none 1, .txnBegin true, .write (some true) 1 (trustRecord 20)]

theorem reads_latest_commit : ∃ s' vReads,
    (start trustDisk).run (trustOps ++ [.txnCommit true, .read (some false) 1]) = some (s', vReads) ∧
      vReads.map extended = [some (trustRecord 10), some (trustRecord 20)] := by
  have hallowed : (Versions.start trustDisk).AllAllowed
      (trustOps ++ [.txnCommit true, .read (some false) 1]) := by
    simp [trustOps, Versions.AllAllowed, Versions.Allowed, Versions.Owns, Versions.Writes, Versions.step,
      Versions.start]
  obtain ⟨s', vReads, hrun⟩ : ∃ s' vReads,
      (start trustDisk).run (trustOps ++ [.txnCommit true, .read (some false) 1]) = some (s', vReads) :=
    ⟨_, _, rfl⟩
  exact ⟨s', vReads, hrun, reads_latest hrun hallowed⟩

/-- After the abort of the batch a read still returns the record of the batch, and before it any other handle
gets it. -/
theorem aborted_write_is_read :
    ((start trustDisk).run (trustOps ++ [.txnAbort true, .read none 1])).map Prod.snd =
      some [some (trustRecord 10), some (trustRecord 20)] ∧
    (Versions.start trustDisk).reads (trustOps ++ [.txnAbort true, .read none 1]) =
      [some (trustRecord 10), some (trustRecord 10)] ∧
    ((start trustDisk).run (trustOps ++ [.read (some false) 1])).map Prod.snd =
      some [some (trustRecord 10), some (trustRecord 20)] ∧
    (Versions.start trustDisk).reads (trustOps ++ [.read (some false) 1]) =
      [some (trustRecord 10), some (trustRecord 10)] := by
  decide +kernel

end SharedDB

end Stealth

import Mathlib.Data.List.Induction
import Stealth.ChainParams

/-!
One handle on the database, with its write batch: a map with a transaction on top. `Exists` differs where
the batch erases a key.
-/

namespace Stealth.LevelDB

inductive WriteOp where
  | put (key value : Bytes)
  | delete (key : Bytes)

namespace WriteOp

def key : WriteOp → Bytes
  | put key _ => key
  | delete key => key

def value : WriteOp → Option Bytes
  | put _ value => some value
  | delete _ => none

end WriteOp

structure CBatchScanner where
  foundEntry : Bool
  deleted : Bool
  foundValue : Bytes

namespace CBatchScanner

def handle (needle : Bytes) (s : CBatchScanner) : WriteOp → CBatchScanner
  | .put key value => if key = needle then ⟨true, false, value⟩ else s
  | .delete key => if key = needle then { s with foundEntry := true, deleted := true } else s

/-- What the batch does to the key: nothing, erase it, or give it a value. -/
def result (s : CBatchScanner) : Option (Option Bytes) :=
  if s.foundEntry then some (if s.deleted then none else some s.foundValue) else none

end CBatchScanner

def scanBatch (key : Bytes) (batch : List WriteOp) : CBatchScanner :=
  batch.foldl (CBatchScanner.handle key) ⟨false, false, []⟩

abbrev Records := Bytes → Option Bytes

def Records.apply (records : Records) (op : WriteOp) : Records := Function.update records op.key op.value

structure CTxDB where
  pdb : Records
  activeBatch : Option (List WriteOp)

/-- The calls on a handle. The last one reads with another handle. -/
inductive Call where
  | read (key : Bytes)
  | exists (key : Bytes)
  | isViable (key : Bytes)
  | write (op : WriteOp)
  | txnBegin
  | txnCommit
  | txnAbort
  | readOther (key : Bytes)

inductive Reply where
  | value (v : Option Bytes)
  | found (f : Bool)
  | done
  deriving DecidableEq

namespace CTxDB

variable (s : CTxDB)

def read (key : Bytes) : Option Bytes :=
  match s.activeBatch with
  | none => s.pdb key
  | some batch =>
    let scanner := scanBatch key batch
    if scanner.deleted then none else if scanner.foundEntry then some scanner.foundValue else s.pdb key

def exists' (key : Bytes) : Bool :=
  match s.activeBatch with
  | none => (s.pdb key).isSome
  | some batch =>
    let scanner := scanBatch key batch
    if scanner.foundEntry && !scanner.deleted then true else (s.pdb key).isSome

def isViable (key : Bytes) : Bool :=
  match s.activeBatch with
  | none => (s.pdb key).isSome
  | some batch =>
    let scanner := scanBatch key batch
    if scanner.foundEntry then !scanner.deleted else (s.pdb key).isSome

def write (op : WriteOp) : CTxDB :=
  match s.activeBatch with
  | none => { s with pdb := s.pdb.apply op }
  | some batch => { s with activeBatch := some (batch ++ [op]) }

/-- One call. There is no result where an assertion fails. -/
def step : Call → Option (CTxDB × Reply)
  | .read key => some (s, .value (s.read key))
  | .exists key => some (s, .found (s.exists' key))
  | .isViable key => some (s, .found (s.isViable key))
  | .write op => some (s.write op, .done)
  | .txnBegin => if s.activeBatch.isSome then none else some ({ s with activeBatch := some [] }, .done)
  | .txnCommit => s.activeBatch.map fun batch => (⟨batch.foldl Records.apply s.pdb, none⟩, .done)
  | .txnAbort => some ({ s with activeBatch := none }, .done)
  | .readOther key => some (s, .value (s.pdb key))

end CTxDB

/-- A map with a transaction that may be open: what was written and erased in it, by key. -/
structure Transactional where
  stored : Records
  pending : Option (Bytes → Option (Option Bytes))

namespace Transactional

variable (t : Transactional)

def last (key : Bytes) : Option (Option Bytes) := t.pending.bind fun p => p key

def value (key : Bytes) : Option Bytes := (t.last key).getD (t.stored key)

def write (op : WriteOp) : Transactional :=
  match t.pending with
  | none => { t with stored := Function.update t.stored op.key op.value }
  | some p => { t with pending := some (Function.update p op.key (some op.value)) }

def step : Call → Option (Transactional × Reply)
  | .read key => some (t, .value (t.value key))
  | .exists key => some (t, .found ((t.last key).join.isSome || (t.stored key).isSome))
  | .isViable key => some (t, .found (t.value key).isSome)
  | .write op => some (t.write op, .done)
  | .txnBegin => if t.pending.isSome then none else some ({ t with pending := some fun _ => none }, .done)
  | .txnCommit => t.pending.map fun _ => (⟨t.value, none⟩, .done)
  | .txnAbort => some ({ t with pending := none }, .done)
  | .readOther key => some (t, .value (t.stored key))

end Transactional

/-- The replies to a sequence of calls, up to the first assertion that fails. -/
def replies {σ : Type} (step : σ → Call → Option (σ × Reply)) : σ → List Call → List Reply
  | _, [] => []
  | s, call :: calls =>
    match step s call with
    | none => []
    | some (s', reply) => reply :: replies step s' calls

theorem result_handle (key : Bytes) (s : CBatchScanner) (op : WriteOp) :
    (s.handle key op).result = if op.key = key then some op.value else s.result := by
  cases op with
  | put k v | delete k =>
    rw [CBatchScanner.handle, WriteOp.key]
    split <;> rfl

theorem result_append (batch : List WriteOp) (op : WriteOp) :
    (fun key => (scanBatch key (batch ++ [op])).result) =
      Function.update (fun key => (scanBatch key batch).result) op.key (some op.value) := by
  funext key
  rw [scanBatch, List.foldl_append, List.foldl_cons, List.foldl_nil, result_handle, Function.update_apply]
  exact if_congr eq_comm rfl rfl

theorem foldl_apply (disk : Records) (batch : List WriteOp) :
    batch.foldl Records.apply disk = fun key => (scanBatch key batch).result.getD (disk key) := by
  induction batch using List.reverseRecOn with
  | nil => rfl
  | append_singleton batch op ih =>
    funext key
    have hlast := congrFun (result_append batch op) key
    rw [List.foldl_append, ih, List.foldl_cons, List.foldl_nil, Records.apply, hlast, Function.update_apply,
      Function.update_apply]
    split <;> rfl

/-- A scanner that has found no entry has not seen a deletion either. -/
theorem foundEntry_of_deleted (key : Bytes) (batch : List WriteOp) (h : (scanBatch key batch).deleted = true) :
    (scanBatch key batch).foundEntry = true := by
  induction batch using List.reverseRecOn with
  | nil => cases h
  | append_singleton batch op ih =>
    rw [scanBatch, List.foldl_append, List.foldl_cons, List.foldl_nil] at h ⊢
    cases op with
    | put k v =>
      rw [CBatchScanner.handle] at h ⊢
      split at h
      · cases h
      · next hk => exact (if_neg hk).symm ▸ ih h
    | delete k =>
      rw [CBatchScanner.handle] at h ⊢
      split
      · rfl
      · next hk => exact ih (by rwa [if_neg hk] at h)

/-- What a handle stands for. -/
def CTxDB.transactional (s : CTxDB) : Transactional :=
  ⟨s.pdb, s.activeBatch.map fun batch key => (scanBatch key batch).result⟩

variable (s : CTxDB)

theorem value_transactional (key : Bytes) : s.transactional.value key = s.read key := by
  obtain ⟨pdb, _ | batch⟩ := s
  · rfl
  · have hfound := foundEntry_of_deleted key batch
    change (CBatchScanner.result _).getD _ = ite _ _ (ite _ _ _)
    rw [CBatchScanner.result]
    cases hdel : (scanBatch key batch).deleted with
    | false => cases (scanBatch key batch).foundEntry <;> rfl
    | true =>
      rw [hfound hdel]
      rfl

theorem isViable_eq (key : Bytes) : s.isViable key = (s.transactional.value key).isSome := by
  obtain ⟨pdb, _ | batch⟩ := s
  · rfl
  · change ite _ _ _ = ((CBatchScanner.result _).getD _).isSome
    rw [CBatchScanner.result]
    cases (scanBatch key batch).foundEntry with
    | false => rfl
    | true => cases (scanBatch key batch).deleted <;> rfl

theorem exists_eq (key : Bytes) :
    s.exists' key = ((s.transactional.last key).join.isSome || (s.pdb key).isSome) := by
  obtain ⟨pdb, _ | batch⟩ := s
  · rfl
  · change ite _ _ _ = ((CBatchScanner.result _).join.isSome || _)
    rw [CBatchScanner.result]
    cases (scanBatch key batch).foundEntry with
    | false => rfl
    | true => cases (scanBatch key batch).deleted <;> rfl

theorem transactional_write (op : WriteOp) : (s.write op).transactional = s.transactional.write op := by
  obtain ⟨pdb, _ | batch⟩ := s
  · rfl
  · exact congrArg (fun p => Transactional.mk pdb (some p)) (result_append batch op)

theorem step_transactional (call : Call) :
    s.transactional.step call = (s.step call).map fun x => (x.1.transactional, x.2) := by
  cases call with
  | read key => exact congrArg (fun v => some (s.transactional, Reply.value v)) (value_transactional s key)
  | «exists» key => exact congrArg (fun f => some (s.transactional, Reply.found f)) (exists_eq s key).symm
  | isViable key => exact congrArg (fun f => some (s.transactional, Reply.found f)) (isViable_eq s key).symm
  | write op => exact congrArg (fun t => some (t, Reply.done)) (transactional_write s op).symm
  | txnBegin => obtain ⟨pdb, _ | batch⟩ := s <;> rfl
  | txnCommit =>
    obtain ⟨pdb, _ | batch⟩ := s
    · rfl
    · exact congrArg (fun disk => some (Transactional.mk disk none, Reply.done)) (foldl_apply pdb batch).symm
  | txnAbort => rfl
  | readOther key => rfl

theorem replies_transactional (calls : List Call) :
    replies CTxDB.step s calls = replies Transactional.step s.transactional calls := by
  induction calls generalizing s with
  | nil => rfl
  | cons call calls ih =>
    rw [replies, replies, step_transactional]
    cases s.step call with
    | none => rfl
    | some x => exact congrArg _ (ih x.1)

/-- The batch erases a key that is stored, and `Exists` finds it. -/
theorem exists_erased : replies CTxDB.step ⟨fun key => if key = [1] then some [2] else none, none⟩
      [.txnBegin, .write (.delete [1]), .read [1], .exists [1]] = [.done, .done, .value none, .found true] := by
  decide

end Stealth.LevelDB

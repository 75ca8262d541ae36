import Mathlib.Data.List.Flatten
import Stealth.Chain.Unserialize

/-!
Values built from integers, strings, vectors, pairs, maps and sets, as `serialize.h` writes and reads them.
Vectors are read in chunks; `GetSerializeSize` counts in 32 bits.
-/

namespace Stealth

open Encoding

/-- The order of the keys of a map or a set. Equivalent keys are equal. -/
structure KeyOrder (α : Type) where
  cmp : α → α → Ordering
  trans : Std.TransCmp cmp
  lawful : Std.LawfulEqCmp cmp

attribute [instance] KeyOrder.trans KeyOrder.lawful

/-- The types that are serialized. -/
inductive Format : Type → Type 1
  | int (w : Nat) : Format (BitVec (8 * w))
  | string : Format Bytes
  | vector {α : Type} (T : Format α) : Format (List α)
  | pair {α β : Type} (K : Format α) (T : Format β) : Format (α × β)
  | map {α β : Type} (o : KeyOrder α) (K : Format α) (T : Format β) : Format (Std.ExtTreeMap α β o.cmp)
  | set {α : Type} (o : KeyOrder α) (K : Format α) : Format (Std.ExtTreeSet α o.cmp)

namespace Format

def serialize : {α : Type} → Format α → α → Bytes
  | _, .int w, n => leBytes w n.toNat
  | _, .string, str => serializeScript str
  | _, .vector T, v => serializeVector (serialize T) v
  | _, .pair K T, item => serialize K item.1 ++ serialize T item.2
  | _, .map _ K T, m => serializeVector (fun item => serialize K item.1 ++ serialize T item.2) m.toList
  | _, .set _ K, m => serializeVector (serialize K) m.toList

def getSizeOfCompactSize (nSize : Nat) : Nat :=
  if nSize < 253 then 1 else if nSize ≤ 0xffff then 3 else if nSize ≤ 0xffffffff then 5 else 9

/-- `sizeof` of a fundamental type. -/
def fundamental : {α : Type} → Format α → Option Nat
  | _, .int w => some w
  | _, _ => none

def sizes {α : Type} (size : α → UInt32) (l : List α) : UInt32 :=
  l.foldl (fun nSize a => nSize + size a) (UInt32.ofNat (getSizeOfCompactSize l.length))

def getSerializeSize : {α : Type} → Format α → α → UInt32
  | _, .int w, _ => UInt32.ofNat w
  | _, .string, str => UInt32.ofNat (getSizeOfCompactSize str.length + str.length)
  | _, .vector T, v =>
    match T.fundamental with
    | some w => UInt32.ofNat (getSizeOfCompactSize v.length + v.length * w)
    | none => sizes (getSerializeSize T) v
  | _, .pair K T, item => getSerializeSize K item.1 + getSerializeSize T item.2
  | _, .map _ K T, m => sizes (fun item => getSerializeSize K item.1 + getSerializeSize T item.2) m.toList
  | _, .set _ K, m => sizes (getSerializeSize K) m.toList

/-- The loop that reads the elements of a vector. Without progress it does not end, and reads nothing. -/
def readChunks {α : Type} (dec : Reader UInt8 α) (chunk : Nat) : Nat → Nat → Reader UInt8 (List α)
  | _, 0 => pure []
  | 0, _ + 1 => failure
  | rounds + 1, left + 1 => do
    let v ← readMany dec (min chunk (left + 1))
    let v' ← readChunks dec chunk rounds (left + 1 - min chunk (left + 1))
    pure (v ++ v')

variable (sizeof : (α : Type) → Format α → Nat)

/-- How many elements of a vector are read at once. -/
def chunk {α : Type} (T : Format α) : Nat :=
  match T.fundamental with
  | some w => 1 + 4999999 / w
  | none => 5000000 / sizeof α T

def unserialize : {α : Type} → Format α → Reader UInt8 α
  | _, .int w => readWord w (BitVec.ofNat (8 * w))
  | _, .string => readString
  | _, .vector T => do
    let nSize ← readCompactSize
    readChunks (unserialize T) (T.chunk sizeof) nSize nSize
  | _, .pair K T => do
    let first ← unserialize K
    let second ← unserialize T
    pure (first, second)
  | _, .map _ K T => do
    let items ← readVector do
      let first ← unserialize K
      let second ← unserialize T
      pure (first, second)
    pure (items.foldl (fun m item => m.insertIfNew item.1 item.2) ∅)
  | _, .set _ K => do
    let keys ← readVector (unserialize K)
    pure (keys.foldl (fun m key => m.insert key) ∅)

/-- No string and no container is larger than the limit. -/
def Fits : {α : Type} → Format α → α → Prop
  | _, .int _, _ => True
  | _, .string, str => str.length ≤ MAX_SIZE
  | _, .vector T, v => v.length ≤ MAX_SIZE ∧ ∀ a ∈ v, Fits T a
  | _, .pair K T, item => Fits K item.1 ∧ Fits T item.2
  | _, .map _ K T, m => m.toList.length ≤ MAX_SIZE ∧ ∀ item ∈ m.toList, Fits K item.1 ∧ Fits T item.2
  | _, .set _ K, m => m.toList.length ≤ MAX_SIZE ∧ ∀ key ∈ m.toList, Fits K key

/-- Every vector that is not empty has elements that fit a chunk. -/
def Chunked : {α : Type} → Format α → α → Bool
  | _, .int _, _ => true
  | _, .string, _ => true
  | _, .vector T, v => (v.isEmpty || decide (0 < T.chunk sizeof)) && v.all (Chunked T)
  | _, .pair K T, item => Chunked K item.1 && Chunked T item.2
  | _, .map _ K T, m => m.toList.all fun item => Chunked K item.1 && Chunked T item.2
  | _, .set _ K, m => m.toList.all (Chunked K)

section Readers

variable {α β : Type} {dec : Reader UInt8 α} {enc : α → Bytes} {P : α → Prop} {ok : α → Bool}

theorem readMany_add (n k : Nat) :
    readMany dec (n + k) = readMany dec n >>= fun v => readMany dec k >>= fun v' => pure (v ++ v') := by
  induction n with
  | zero => simp [readMany]
  | succ n ih => simp [Nat.succ_add, readMany, ih]

theorem readChunks_eq_readMany {chunk : Nat} (hchunk : 0 < chunk) {rounds left : Nat} (hle : left ≤ rounds) :
    readChunks dec chunk rounds left = readMany dec left := by
  induction rounds generalizing left with
  | zero => rw [Nat.le_zero.1 hle]; rfl
  | succ rounds ih =>
    cases left with
    | zero => rfl
    | succ left =>
      have hsplit : left + 1 = min chunk (left + 1) + (left + 1 - min chunk (left + 1)) := by omega
      rw [readChunks, ih (by omega)]
      conv_rhs => rw [hsplit, readMany_add]

theorem readChunks_zero (rounds left : Nat) : readChunks dec 0 rounds (left + 1) = failure := by
  induction rounds with
  | zero => rfl
  | succ rounds ih => simp [readChunks, readMany, ih]

/-- The values in `P` are read back exactly if they are `ok`, and reading fails otherwise. -/
def ReadsIf (P : α → Prop) (ok : α → Bool) (enc : α → Bytes) (dec : Reader UInt8 α) : Prop :=
  ∀ a s, P a → dec (enc a ++ s) = if ok a then some (a, s) else none

theorem ReadsIf.bind (h : ReadsIf P ok enc dec) {a : α} (ha : P a) (f : α → Reader UInt8 β) (s : Bytes) :
    (dec >>= f) (enc a ++ s) = if ok a then f a s else none := by
  change (dec (enc a ++ s)).bind (fun p => f p.1 p.2) = _
  rw [h a s ha]
  split <;> rfl

theorem ReadsIf.pair {Q : β → Prop} {ok' : β → Bool} {enc' : β → Bytes} {dec' : Reader UInt8 β}
    (h : ReadsIf P ok enc dec) (h' : ReadsIf Q ok' enc' dec') :
    ReadsIf (fun item : α × β => P item.1 ∧ Q item.2) (fun item => ok item.1 && ok' item.2)
      (fun item => enc item.1 ++ enc' item.2) (do
        let first ← dec
        let second ← dec'
        pure (first, second)) := by
  intro item s hitem
  rw [List.append_assoc, h.bind hitem.1, h'.bind hitem.2, ← ite_and]
  dsimp only
  simp only [Bool.and_eq_true]
  rfl

theorem ReadsIf.many (h : ReadsIf P ok enc dec) (l : List α) (s : Bytes) (hl : ∀ a ∈ l, P a) :
    readMany dec l.length (l.flatMap enc ++ s) = if l.all ok then some (l, s) else none := by
  induction l with
  | nil => rfl
  | cons a l ih =>
    rw [List.flatMap_cons, List.append_assoc, List.length_cons, readMany, h.bind (hl a List.mem_cons_self)]
    change (if ok a then (readMany dec l.length (l.flatMap enc ++ s)).bind (fun p => some (a :: p.1, p.2)) else none) = _
    rw [ih fun b hb => hl b (List.mem_cons_of_mem _ hb), List.all_cons]
    cases ok a <;> cases l.all ok <;> rfl

theorem ReadsIf.vector (h : ReadsIf P ok enc dec) :
    ReadsIf (fun v => v.length ≤ MAX_SIZE ∧ ∀ a ∈ v, P a) (fun v => v.all ok) (serializeVector enc) (readVector dec) := by
  intro v s hv
  rw [serializeVector, List.append_assoc, readVector, readsBack_compactSize.bind hv.1]
  exact h.many v s hv.2

theorem getElem?_foldl_insertIfNew {o : KeyOrder α} (l : List (α × β)) (m : Std.ExtTreeMap α β o.cmp) (k : α) :
    (l.foldl (fun m item => m.insertIfNew item.1 item.2) m)[k]? =
      m[k]?.or ((l.find? fun item => o.cmp item.1 k == .eq).map Prod.snd) := by
  induction l generalizing m with
  | nil => simp
  | cons item l ih =>
    rw [List.foldl_cons, ih, Std.ExtTreeMap.getElem?_insertIfNew, List.find?_cons]
    by_cases heq : o.cmp item.1 k = .eq
    · obtain rfl := Std.LawfulEqCmp.eq_of_compare heq
      by_cases hmem : item.1 ∈ m <;> simp [hmem, heq]
    · simp [heq, beq_eq_false_iff_ne.2 heq]

theorem foldl_insertIfNew_toList (o : KeyOrder α) (m : Std.ExtTreeMap α β o.cmp) :
    m.toList.foldl (fun m item => m.insertIfNew item.1 item.2) ∅ = m := by
  refine ext_getElem? fun k => ?_
  rw [getElem?_foldl_insertIfNew, getElem?_empty, Option.none_or]
  cases hfind : m.toList.find? fun item => o.cmp item.1 k == .eq with
  | none =>
    refine (Option.eq_none_iff_forall_ne_some.2 fun t ht => ?_).symm
    have hne := List.find?_eq_none.1 hfind _ (mem_toList_iff_getElem?_eq_some.2 ht)
    simp at hne
  | some item =>
    have heq := List.find?_some hfind
    obtain rfl := Std.LawfulEqCmp.eq_of_compare (beq_iff_eq.1 heq)
    exact (mem_toList_iff_getElem?_eq_some.1 (List.mem_of_find?_eq_some hfind)).symm

theorem foldl_insert_toList (o : KeyOrder α) (m : Std.ExtTreeSet α o.cmp) :
    m.toList.foldl (fun m key => m.insert key) ∅ = m := by
  have hmem : ∀ (l : List α) (m : Std.ExtTreeSet α o.cmp) (k : α),
      k ∈ l.foldl (fun m key => m.insert key) m ↔ k ∈ m ∨ k ∈ l := by
    intro l
    induction l with
    | nil => simp
    | cons key l ih =>
      intro m k
      rw [List.foldl_cons, ih, Std.ExtTreeSet.mem_insert, Std.LawfulEqCmp.compare_eq_iff_eq, List.mem_cons,
        eq_comm (a := key), or_assoc, or_left_comm]
  refine Std.ExtTreeSet.ext_mem fun k => ?_
  simp [hmem]

end Readers

theorem readsIf_unserialize {α : Type} (T : Format α) :
    ReadsIf T.Fits (T.Chunked sizeof) T.serialize (T.unserialize sizeof) := by
  induction T with
  | int w =>
    intro n s _
    exact readsBack_word (P := fun _ => True) BitVec.toNat (fun _ => rfl)
      (fun n _ => Nat.pow_mul 2 8 w ▸ n.isLt) (fun n => by simp) n s trivial
  | string => exact fun str s h => readsBack_string str s h
  | vector T ih =>
    intro v s hv
    rw [serialize, serializeVector, List.append_assoc, unserialize, readsBack_compactSize.bind hv.1, Chunked]
    by_cases hchunk : 0 < T.chunk sizeof
    · rw [readChunks_eq_readMany hchunk le_rfl, ih.many v s hv.2]
      simp [hchunk]
    · rw [Nat.eq_zero_of_not_pos hchunk]
      cases v with
      | nil => rfl
      | cons a v => rw [List.length_cons, readChunks_zero]; rfl
  | pair K T ihK ihT => exact ihK.pair ihT
  | map o K T ihK ihT =>
    intro m s hm
    rw [serialize, unserialize, (ihK.pair ihT).vector.bind hm]
    rw [foldl_insertIfNew_toList]
    rfl
  | set o K ih =>
    intro m s hm
    rw [serialize, unserialize, ih.vector.bind hm, foldl_insert_toList]
    rfl

theorem length_writeCompactSize (n : Nat) : (writeCompactSize n).length = getSizeOfCompactSize n := by
  rw [writeCompactSize, getSizeOfCompactSize]
  split_ifs <;> rfl

theorem length_serializeVector {α : Type} {enc : α → Bytes} {l : List α} {n : Nat} (h : ∀ a ∈ l, (enc a).length = n) :
    (serializeVector enc l).length = getSizeOfCompactSize l.length + l.length * n := by
  rw [serializeVector, List.length_append, length_writeCompactSize, List.length_flatMap, List.map_congr_left h,
    List.map_const', List.sum_replicate_nat]

theorem length_serializeScript (str : Bytes) :
    (serializeScript str).length = getSizeOfCompactSize str.length + str.length := by
  rw [serializeScript, length_serializeVector (n := 1) fun _ _ => rfl, Nat.mul_one]

theorem sizes_eq {α : Type} {size : α → UInt32} {enc : α → Bytes} {l : List α}
    (h : ∀ a ∈ l, size a = UInt32.ofNat (enc a).length) :
    sizes size l = UInt32.ofNat (serializeVector enc l).length := by
  have hfold : ∀ (l : List α) (n : Nat), (∀ a ∈ l, size a = UInt32.ofNat (enc a).length) →
      l.foldl (fun nSize a => nSize + size a) (UInt32.ofNat n) = UInt32.ofNat (n + (l.flatMap enc).length) := by
    intro l
    induction l with
    | nil => intro n _; rfl
    | cons a l ih =>
      intro n h
      rw [List.foldl_cons, h a List.mem_cons_self, ← UInt32.ofNat_add,
        ih _ fun b hb => h b (List.mem_cons_of_mem _ hb), List.flatMap_cons, List.length_append, Nat.add_assoc]
  rw [sizes, hfold l _ h, serializeVector, List.length_append, length_writeCompactSize]

theorem getSerializeSize_eq {α : Type} (T : Format α) (a : α) :
    T.getSerializeSize a = UInt32.ofNat (T.serialize a).length := by
  induction T with
  | int w => rw [serialize, leBytes_length, getSerializeSize]
  | string => 
    simp [getSerializeSize, serialize, serializeScript, serializeVector, length_writeCompactSize]
  | vector T ih =>
    rw [getSerializeSize]
    cases T with
    | int w => 
      simp [fundamental, serialize, serializeVector, length_writeCompactSize, List.length_flatMap]
    | _ => exact sizes_eq fun a _ => ih a
  | pair K T ihK ihT => rw [getSerializeSize, ihK, ihT, serialize, List.length_append, UInt32.ofNat_add]
  | map o K T ihK ihT =>
    refine sizes_eq fun item _ => ?_
    rw [ihK, ihT, List.length_append, UInt32.ofNat_add]
  | set o K ih => exact sizes_eq fun key _ => ih key

/-- A value is read back from what it was written to, whatever follows, and its size is announced, exactly if every
vector in it has elements that fit a chunk and less than `2 ^ 32` bytes are written. -/
theorem unserialize_serialize_iff {α : Type} (T : Format α) (a : α) (h : T.Fits a) :
    ((∀ s, T.unserialize sizeof (T.serialize a ++ s) = some (a, s)) ∧
        (T.getSerializeSize a).toNat = (T.serialize a).length) ↔
      T.Chunked sizeof a = true ∧ (T.serialize a).length < 2 ^ 32 := by
  refine and_congr ?_ ?_
  · simp only [readsIf_unserialize sizeof T a _ h]
    cases T.Chunked sizeof a <;> simp
  · rw [getSerializeSize_eq, UInt32.toNat_ofNat', Nat.mod_eq_iff_lt (by decide)]

theorem unserialize_serialize_names : unserialize (fun _ _ => 32) (.vector .string) (serialize (.vector .string) [[7], []] ++ [1]) =
    some ([[7], []], [1]) := by
  have hfits : (Format.vector .string).Fits [[7], []] := ⟨by decide, by simp [Fits, MAX_SIZE]⟩
  exact ((unserialize_serialize_iff (fun _ _ => 32) (.vector .string) [[7], []] hfits).2 ⟨by decide, by decide⟩).1 [1]

/-- The size of 128 strings of the largest size is announced as 641 bytes. -/
theorem getSerializeSize_wraps : let v : List Bytes := List.replicate 128 (List.replicate MAX_SIZE 0)
    (Format.vector .string).Fits v ∧
      (getSerializeSize (.vector .string) v).toNat ≠ (serialize (.vector .string) v).length := by
  intro v
  have helem : ∀ a ∈ v, (serialize .string a).length = MAX_SIZE + 5 := by
    intro a ha
    rw [List.eq_of_mem_replicate ha, serialize, length_serializeScript, List.length_replicate]
    decide
  have hlen : (serialize (.vector .string) v).length = 2 ^ 32 + 641 := by
    rw [serialize, length_serializeVector helem, List.length_replicate]
    decide
  refine ⟨⟨?_, fun a ha => ?_⟩, ?_⟩
  · rw [List.length_replicate]
    decide
  · rw [List.eq_of_mem_replicate ha]
    exact List.length_replicate.le
  · rw [getSerializeSize_eq, hlen]
    decide

end Format

end Stealth

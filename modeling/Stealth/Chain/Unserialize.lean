import Stealth.Script.Parse

/-!
Reading serialized values.
-/

namespace Stealth

open Encoding

def MAX_SIZE : Nat := 0x02000000

variable {α : Type} {P : α → Prop} {dec : Reader UInt8 α} {w : Nat}

def readWord (w : Nat) (value : Nat → α) : Reader UInt8 α := (fun bs => value (leValue bs)) <$> take w

theorem readsBack_word {enc : α → Bytes} (code : α → Nat) {value : Nat → α}
    (henc : ∀ a, enc a = leBytes w (code a)) (hlt : ∀ a, P a → code a < 256 ^ w)
    (hvalue : ∀ a, value (code a) = a) :
    ReadsBack P enc (readWord w value) := by
  intro a s ha
  rw [henc, readWord]
  refine ((readsBack_take w).map (leBytes_length w (code a)) _ s).trans ?_
  rw [leValue_leBytes (hlt a ha), hvalue]

theorem readWord_bind {α β : Type} {s : Bytes} (h : w ≤ s.length) {value : Nat → α}
    (f : α → Reader UInt8 β) :
    (readWord w value >>= f) s = f (value (leValue (s.take w))) (s.drop w) := by
  rw [readWord, map_eq_pure_bind, bind_assoc, take_bind h]
  rfl

def readUint256 : Reader UInt8 Uint256 := readWord 32 (BitVec.ofNat 256)
def readUInt32 : Reader UInt8 UInt32 := readWord 4 UInt32.ofNat
def readInt32 : Reader UInt8 Int32 := readWord 4 fun n => (UInt32.ofNat n).toInt32
def readUInt64 : Reader UInt8 UInt64 := readWord 8 UInt64.ofNat
def readInt64 : Reader UInt8 Int64 := readWord 8 fun n => (UInt64.ofNat n).toInt64
def serializeUInt64 (n : UInt64) : Bytes := leBytes 8 n.toNat

theorem readsBack_uint256 : ReadsBack (fun _ => True) serializeUint256 readUint256 :=
  readsBack_word BitVec.toNat (fun _ => rfl) (fun h _ => h.isLt) fun h => by simp

theorem readsBack_uint32 : ReadsBack (fun _ => True) serializeUInt32 readUInt32 :=
  readsBack_word UInt32.toNat (fun _ => rfl) (fun n _ => n.toNat_lt) fun n => by simp

theorem readsBack_int32 : ReadsBack (fun _ => True) serializeInt32 readInt32 :=
  readsBack_word (fun n => n.toUInt32.toNat) (fun _ => rfl) (fun n _ => n.toUInt32.toNat_lt) fun n => by simp

theorem readsBack_uint64 : ReadsBack (fun _ => True) serializeUInt64 readUInt64 :=
  readsBack_word UInt64.toNat (fun _ => rfl) (fun n _ => n.toNat_lt) fun n => by simp

theorem readsBack_int64 : ReadsBack (fun _ => True) serializeInt64 readInt64 :=
  readsBack_word (fun n => n.toUInt64.toNat) (fun _ => rfl) (fun n _ => n.toUInt64.toNat_lt) fun n => by simp

theorem readsBack_byte : ReadsBack (fun _ => True) (fun ch : UInt8 => [ch]) (readWord 1 UInt8.ofNat) :=
  readsBack_word UInt8.toNat (fun ch => by simp [leBytes]) (fun ch _ => ch.toNat_lt) fun ch => by simp

def readCompactSize : Reader UInt8 Nat := do
  let chSize ← readWord 1 UInt8.ofNat
  let nSize ← (if chSize < 253 then pure chSize.toNat else readWord (sizeWidth chSize) id)
  if MAX_SIZE < nSize then failure else pure nSize

/-- The size that is read is the one written, in 64 bits. -/
theorem readCompactSize_writeCompactSize (n : Nat) (s : Bytes) : readCompactSize (writeCompactSize n ++ s) =
      if MAX_SIZE < n % 2 ^ 64 then none else some (n % 2 ^ 64, s) := by
  have hlast : ∀ m : Nat, (if MAX_SIZE < m then failure else pure m : Reader UInt8 Nat) s =
      if MAX_SIZE < m then none else some (m, s) := by
    intro m
    split <;> rfl
  rw [writeCompactSize_eq, ← List.singleton_append, List.append_assoc, readCompactSize, readsBack_byte.bind trivial]
  by_cases hsmall : n < 253
  · obtain ⟨htag, hvalue⟩ := sizeTag_small hsmall
    rw [if_pos htag, sizeWidth, if_pos htag, hvalue, leBytes, List.nil_append, pure_bind,
      Nat.mod_eq_of_lt (hsmall.trans (by decide))]
    exact hlast n
  · have htag : ¬ sizeTag n < 253 := by
      simp only [sizeTag, if_neg hsmall]
      split_ifs <;> decide
    have hmod : n % 256 ^ sizeWidth (sizeTag n) = n % 2 ^ 64 := by
      by_cases hn : n < 2 ^ 64
      · rw [Nat.mod_eq_of_lt hn, Nat.mod_eq_of_lt (lt_of_sizeTag hn htag)]
      · have htag : sizeTag n = 255 := by
          rw [sizeTag, if_neg hsmall, if_neg (by omega), if_neg (by omega)]
        rw [htag]
        rfl
    rw [if_neg htag, readWord_bind (by rw [List.length_append, leBytes_length]; omega),
      List.take_left' (leBytes_length ..), List.drop_left' (leBytes_length ..), leValue_leBytes_mod, hmod]
    exact hlast _

theorem readsBack_compactSize : ReadsBack (· ≤ MAX_SIZE) writeCompactSize readCompactSize := by
  intro n s hn
  have hmod : n % 2 ^ 64 = n := Nat.mod_eq_of_lt (lt_of_le_of_lt hn (by decide))
  rw [readCompactSize_writeCompactSize, hmod, if_neg (not_lt.2 hn)]

def readVector (dec : Reader UInt8 α) : Reader UInt8 (List α) := do
  let nSize ← readCompactSize
  readMany dec nSize

theorem readsBack_vector {ser : α → Bytes} (h : ReadsBack P ser dec) :
    ReadsBack (fun v : List α => v.length ≤ MAX_SIZE ∧ ∀ a ∈ v, P a) (serializeVector ser) (readVector dec) := by
  intro v s hv
  rw [serializeVector, List.append_assoc, readVector, readsBack_compactSize.bind hv.1]
  exact h.many v s hv.2

theorem yields_compactSize : Yields (· ≤ MAX_SIZE) readCompactSize := by
  refine yields_bind fun _ => yields_bind fun nSize => ?_
  by_cases h : MAX_SIZE < nSize
  · rw [if_pos h]
    exact fun _ _ _ heq => nomatch heq
  · rw [if_neg h]
    exact yields_pure (not_lt.1 h)

theorem yields_vector (h : Yields P dec) :
    Yields (fun v : List α => v.length ≤ MAX_SIZE ∧ ∀ a ∈ v, P a) (readVector dec) :=
  yields_compactSize.bind fun _ hn s v s' heq =>
    have hv := h.many _ s v s' heq
    ⟨hv.1 ▸ hn, hv.2⟩

/-- Byte strings of the type `std::string`, keys and numbers are vectors of bytes. -/
def readString : Reader UInt8 Bytes := readVector (readWord 1 UInt8.ofNat)

theorem readsBack_string : ReadsBack (·.length ≤ MAX_SIZE) serializeScript readString := fun bs s h =>
  readsBack_vector readsBack_byte bs s ⟨h, fun _ _ => trivial⟩

theorem yields_string : Yields (·.length ≤ MAX_SIZE) readString := fun s bs s' h =>
  (yields_vector (yields_true _) s bs s' h).1

end Stealth

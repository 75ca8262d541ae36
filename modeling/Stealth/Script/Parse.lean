import Stealth.Chain.Transaction

/-!
Reading scripts: one instruction with its immediate operand, the removal of a byte string at the
starts of instructions, and pushes.
-/

namespace Stealth

open Encoding

variable {pc rest : Bytes} {opcode : UInt8}

def leValue : Bytes → Nat
  | [] => 0
  | ch :: bs => ch.toNat + 256 * leValue bs

theorem leValue_leBytes_mod (w n : Nat) : leValue (leBytes w n) = n % 256 ^ w := by
  induction w generalizing n with
  | zero => rw [leBytes, leValue, Nat.pow_zero, Nat.mod_one]
  | succ w ih =>
    rw [leBytes, leValue, ih, UInt8.toNat_ofNat', Nat.pow_succ' (m := 256), Nat.mod_mul (a := 256)]

theorem leValue_leBytes {w n : Nat} (h : n < 256 ^ w) : leValue (leBytes w n) = n := by
  rw [leValue_leBytes_mod, Nat.mod_eq_of_lt h]

theorem leValue_lt : ∀ vch : Bytes, leValue vch < 256 ^ vch.length
  | [] => Nat.one_pos
  | ch :: vch => by
    have hch : ch.toNat < 256 := ch.toNat_lt
    have hrest := leValue_lt vch
    rw [leValue, List.length_cons, Nat.pow_succ]
    omega

theorem leValue_append (a b : Bytes) : leValue (a ++ b) = leValue a + 256 ^ a.length * leValue b := by
  induction a with
  | nil => simp [leValue]
  | cons ch a ih =>
    rw [List.cons_append, leValue, leValue, ih, List.length_cons, Nat.pow_succ', Nat.mul_add, Nat.mul_assoc,
      Nat.add_assoc]

namespace CScript

def opPushdata1 : UInt8 := 0x4c
def opPushdata2 : UInt8 := 0x4d
def opPushdata4 : UInt8 := 0x4e
def opCodeSeparator : UInt8 := 0xab

def readSize (w : Nat) (pc : Bytes) : Option (Nat × Bytes) :=
  if pc.length < w then none else some (leValue (pc.take w), pc.drop w)

/-- The size of the immediate operand of an instruction up to `OP_PUSHDATA4`. -/
def operandSize (opcode : UInt8) (pc : Bytes) : Option (Nat × Bytes) :=
  if opcode < opPushdata1 then some (opcode.toNat, pc)
  else if opcode = opPushdata1 then readSize 1 pc
  else if opcode = opPushdata2 then readSize 2 pc
  else readSize 4 pc

/-- How many bytes the size of the operand takes. -/
def sizeBytes (opcode : UInt8) : Nat :=
  if opcode < opPushdata1 then 0
  else if opcode = opPushdata1 then 1
  else if opcode = opPushdata2 then 2
  else 4

theorem operandSize_length {nSize : Nat} (h : operandSize opcode pc = some (nSize, rest)) :
    sizeBytes opcode + rest.length = pc.length := by
  have hread : ∀ {w}, readSize w pc = some (nSize, rest) → w + rest.length = pc.length := by
    intro w hw
    rw [readSize] at hw
    split at hw
    · cases hw
    · cases hw
      rw [List.length_drop]
      omega
  rw [operandSize] at h
  rw [sizeBytes]
  split_ifs at h ⊢
  · cases h
    exact Nat.zero_add _
  · exact hread h
  · exact hread h
  · exact hread h

/-- `GetOp2`: the opcode, its immediate operand and the rest of the script. A template has no
immediate operands. The bytes that are left are counted in an `unsigned int`. -/
def getOp2 (fTemplate : Bool) : Bytes → Option (UInt8 × Bytes × Bytes)
  | [] => none
  | opcode :: pc =>
    if opcode ≤ opPushdata4 ∧ fTemplate = false then
      match operandSize opcode pc with
      | none => none
      | some (nSize, pc) =>
        if pc.length % 2 ^ 32 < nSize then none
        else some (opcode, pc.take nSize, pc.drop nSize)
    else some (opcode, [], pc)

def getOp (pc : Bytes) : Option (UInt8 × Bytes × Bytes) := getOp2 false pc

def eraseFront (b : Bytes) : Nat → Bytes → Bytes
  | 0, s => s
  | fuel + 1, s => if b.isPrefixOf s then eraseFront b fuel (s.drop b.length) else s

/-- `FindAndDelete` from the position where `s` is left: copies of `b` go, one instruction stays. -/
def findAndDeleteFrom (b : Bytes) : Nat → Bytes → Bytes
  | 0, s => s
  | fuel + 1, s =>
    let s := eraseFront b s.length s
    match getOp s with
    | none => s
    | some (_, _, rest) => s.take (s.length - rest.length) ++ findAndDeleteFrom b fuel rest

/-- `FindAndDelete`, with the script that is left. Each round takes a byte at least. -/
def findAndDelete (b s : CScript) : CScript :=
  if b.isEmpty then s else findAndDeleteFrom b (s.length + 1) s

/-- `operator<<` of a byte vector. -/
def push (s : CScript) (b : Bytes) : CScript :=
  if b.length < opPushdata1.toNat then s ++ UInt8.ofNat b.length :: b
  else if b.length ≤ 0xff then s ++ opPushdata1 :: UInt8.ofNat b.length :: b
  else if b.length ≤ 0xffff then s ++ opPushdata2 :: (leBytes 2 b.length ++ b)
  else s ++ opPushdata4 :: (leBytes 4 b.length ++ b)

theorem getOp_eq_some {vch : Bytes} (h : getOp pc = some (opcode, vch, rest)) :
    (∃ tail, pc = opcode :: tail) ∧ (opcode ≤ opPushdata4 ∨ vch = []) ∧
      ∃ k ≤ 4, pc.length = 1 + k + vch.length + rest.length := by
  cases pc with
  | nil => cases h
  | cons b pc =>
    rw [getOp, getOp2] at h
    split at h
    · next hpush =>
      split at h
      · cases h
      · next nSize left hsize =>
        have hlen := operandSize_length hsize
        split at h
        · cases h
        · cases h
          refine ⟨⟨_, rfl⟩, .inl hpush.1, sizeBytes opcode, ?_, ?_⟩
          · rw [sizeBytes]
            split_ifs <;> omega
          · rw [List.length_take, List.length_drop, List.length_cons]
            omega
    · cases h
      exact ⟨⟨_, rfl⟩, .inr rfl, 0, Nat.zero_le 4, (Nat.add_comm 1 _).symm⟩

theorem length_lt_of_getOp {vch : Bytes}
    (h : getOp pc = some (opcode, vch, rest)) : rest.length < pc.length := by
  obtain ⟨-, -, k, -, hlen⟩ := getOp_eq_some h
  omega

theorem le_opPushdata4_of_getOp {vch : Bytes}
    (h : getOp pc = some (opcode, vch, rest)) (hvch : vch ≠ []) : opcode ≤ opPushdata4 :=
  (getOp_eq_some h).2.1.resolve_right hvch

theorem readSize_leBytes (w n : Nat) (rest : Bytes) :
    readSize w (leBytes w n ++ rest) = some (n % 256 ^ w, rest) := by
  have hw := leBytes_length w n
  rw [readSize, if_neg (by rw [List.length_append]; omega), List.take_left' hw, List.drop_left' hw,
    leValue_leBytes_mod]

def pushCode (b : Bytes) : UInt8 :=
  if b.length < opPushdata1.toNat then UInt8.ofNat b.length
  else if b.length ≤ 0xff then opPushdata1
  else if b.length ≤ 0xffff then opPushdata2
  else opPushdata4

theorem push_eq (b : Bytes) : ∃ vchSize, push [] b = pushCode b :: (vchSize ++ b) ∧
    pushCode b ≤ opPushdata4 ∧ ∀ rest,
      operandSize (pushCode b) (vchSize ++ rest) = some (b.length % 2 ^ 32, rest) := by
  have h76 : opPushdata1.toNat = 76 := rfl
  rw [push, pushCode, h76]
  split_ifs with h₁ h₂ h₃
  · have hsize : (UInt8.ofNat b.length).toNat = b.length := by
      rw [UInt8.toNat_ofNat', Nat.mod_eq_of_lt (by omega)]
    refine ⟨[], rfl, ?_, fun rest => ?_⟩
    · rw [UInt8.le_iff_toNat_le, hsize]
      exact Nat.le_of_lt (Nat.lt_of_lt_of_le h₁ (by decide))
    · rw [operandSize, if_pos (by rw [UInt8.lt_iff_toNat_lt, hsize]; exact h₁), hsize,
        Nat.mod_eq_of_lt (by omega)]
      rfl
  · refine ⟨leBytes 1 b.length, rfl, by decide, fun rest => ?_⟩
    rw [operandSize, if_neg (by decide), if_pos rfl, readSize_leBytes, Nat.mod_eq_of_lt (by omega),
      Nat.mod_eq_of_lt (by omega)]
  · refine ⟨leBytes 2 b.length, rfl, by decide, fun rest => ?_⟩
    rw [operandSize, if_neg (by decide), if_neg (by decide), if_pos rfl, readSize_leBytes,
      Nat.mod_eq_of_lt (by omega), Nat.mod_eq_of_lt (by omega)]
  · refine ⟨leBytes 4 b.length, rfl, by decide, fun rest => ?_⟩
    rw [operandSize, if_neg (by decide), if_neg (by decide), if_neg (by decide), readSize_leBytes]
    rfl

/-- The length is written, and what is left of the script is counted, in 32 bits. -/
theorem getOp_push (b rest : Bytes) : getOp (push [] b ++ rest) =
      if (b ++ rest).length % 2 ^ 32 < b.length % 2 ^ 32 then none
      else some (pushCode b, (b ++ rest).take (b.length % 2 ^ 32), (b ++ rest).drop (b.length % 2 ^ 32)) := by
  obtain ⟨vchSize, heq, hle, hsize⟩ := push_eq b
  rw [heq, List.cons_append, List.append_assoc, getOp, getOp2, if_pos ⟨hle, rfl⟩, hsize]

theorem getOp_push_of_lt {b : Bytes} (hlen : (b ++ rest).length < 2 ^ 32) :
    getOp (push [] b ++ rest) = some (pushCode b, b, rest) := by
  have hadd : (b ++ rest).length = b.length + rest.length := List.length_append
  rw [getOp_push, Nat.mod_eq_of_lt hlen, Nat.mod_eq_of_lt (by omega), if_neg (by omega), List.take_left,
    List.drop_left]

end CScript

end Stealth

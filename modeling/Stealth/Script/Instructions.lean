import Stealth.Script.Recognised

/-! Scripts written instruction by instruction and read back. A call of `GetOp` that fails also moves `pc`. -/

namespace Stealth.CScript

/-- What is shifted into a script: an opcode that has no operand, or data. -/
inductive Item where
  | op (opcode : UInt8) (h : opPushdata4 < opcode)
  | data (b : Bytes)

namespace Item

def append (s : CScript) : Item → CScript
  | .op opcode _ => s ++ [opcode]
  | .data b => push s b

def bytes : Item → Bytes := append []

/-- The opcode and the operand that `GetOp` should return. -/
def read : Item → UInt8 × Bytes
  | .op opcode _ => (opcode, [])
  | .data b => (pushCode b, b)

/-- The size of the data, and of the script from the data on, as 32 bits hold them. -/
def Fits (rest : Bytes) : Item → Prop
  | .op _ _ => True
  | .data b => b.length < 2 ^ 32 ∧ b.length ≤ (b ++ rest).length % 2 ^ 32

end Item

def written (items : List Item) : CScript := items.foldl Item.append []

/-- Repeated `GetOp`: what it returns, and the bytes at which it fails. -/
def getOps (s : Bytes) : List (UInt8 × Bytes) × Bytes :=
  match h : getOp s with
  | none => ([], s)
  | some (opcode, vch, rest) =>
    have : rest.length < s.length := length_lt_of_getOp h
    ((opcode, vch) :: (getOps rest).1, (getOps rest).2)
termination_by s.length

/-- The size of every push, and of the script after it, as 32 bits hold them. -/
def AllFit : List Item → Prop
  | [] => True
  | item :: items => item.Fits (items.flatMap Item.bytes) ∧ AllFit items

theorem append_eq (s : CScript) (item : Item) : item.append s = s ++ item.bytes := by
  cases item with
  | op opcode h => rfl
  | data b =>
    simp only [Item.bytes, Item.append, push]
    split_ifs <;> rfl

theorem written_eq (items : List Item) : written items = items.flatMap Item.bytes := by
  have h : ∀ s : CScript, items.foldl Item.append s = s ++ items.flatMap Item.bytes := by
    induction items with
    | nil => exact fun s => (List.append_nil s).symm
    | cons item items ih =>
      intro s
      rw [List.foldl_cons, ih, append_eq, List.flatMap_cons, List.append_assoc]
  exact h []

theorem getOps_nil : getOps [] = ([], []) := by
  rw [getOps]
  rfl

theorem getOps_of_getOp {s vch rest : Bytes} {opcode : UInt8} (h : getOp s = some (opcode, vch, rest)) :
    getOps s = ((opcode, vch) :: (getOps rest).1, (getOps rest).2) := by
  rw [getOps]
  split
  · next hnone =>
    rw [h] at hnone
    cases hnone
  · next heq =>
    rw [h] at heq
    cases heq
    rfl

theorem getOp_item {item : Item} {rest : Bytes} (h : item.Fits rest) :
    getOp (item.bytes ++ rest) = some (item.read.1, item.read.2, rest) := by
  cases item with
  | op opcode hop => exact getOp_op hop rest
  | data b =>
    obtain ⟨hlt, hle⟩ := h
    change getOp (push [] b ++ rest) = some (pushCode b, b, rest)
    rw [getOp_push, Nat.mod_eq_of_lt hlt, if_neg (Nat.not_lt.2 hle), List.take_left, List.drop_left]

/-- Data that does not fit is not what the next call returns. -/
theorem fits_of_getOps {item : Item} {rest : Bytes} {items : List (UInt8 × Bytes)} {tail : Bytes}
    (h : getOps (item.bytes ++ rest) = (item.read :: items, tail)) : item.Fits rest := by
  cases item with
  | op opcode hop => trivial
  | data b =>
    have hget := getOp_push b rest
    change getOps (push [] b ++ rest) = ((pushCode b, b) :: items, tail) at h
    split at hget
    · rw [getOps] at h
      split at h
      · cases h
      · next heq =>
        rw [hget] at heq
        cases heq
    · next hfit =>
      rw [getOps_of_getOp hget] at h
      simp only [Prod.mk.injEq, List.cons.injEq, true_and] at h
      have hlen := congrArg List.length h.1.1
      rw [List.length_take, List.length_append] at hlen
      have hmod := Nat.mod_lt b.length (show 0 < 2 ^ 32 by decide)
      have hlt : b.length < 2 ^ 32 := by omega
      rw [Nat.mod_eq_of_lt hlt] at hfit
      exact ⟨hlt, Nat.not_lt.1 hfit⟩

theorem getOps_items (items : List Item) :
    getOps (items.flatMap Item.bytes) = (items.map Item.read, []) ↔ AllFit items := by
  induction items with
  | nil => exact iff_of_true getOps_nil trivial
  | cons item items ih =>
    rw [List.flatMap_cons, List.map_cons, AllFit, ← ih]
    refine ⟨fun h => ?_, fun ⟨hfit, hrest⟩ => ?_⟩
    · have hfit := fits_of_getOps h
      rw [getOps_of_getOp (getOp_item hfit)] at h
      simp only [Prod.mk.injEq, List.cons.injEq] at h
      exact ⟨hfit, Prod.ext h.1.2 h.2⟩
    · rw [getOps_of_getOp (getOp_item hfit), hrest]

/-- `GetOp` from a position: whether it succeeds, and where it leaves `pc`. -/
def getOpAt (s : Bytes) (pc : Nat) : Bool × Nat :=
  match s.drop pc with
  | [] => (false, pc)
  | opcode :: left =>
    if opcode ≤ opPushdata4 then
      match operandSize opcode left with
      | none => (false, pc + 1)
      | some (nSize, left) =>
        let pc := pc + 1 + sizeBytes opcode
        if left.length % 2 ^ 32 < nSize then (false, pc) else (true, pc + nSize)
    else (true, pc + 1)

theorem getOpAt_spec (s : Bytes) {pc : Nat} (hpc : pc ≤ s.length) :
    (getOpAt s pc).1 = (getOp (s.drop pc)).isSome ∧ (getOpAt s pc).2 ≤ s.length ∧
      ((getOpAt s pc).1 = true → pc < (getOpAt s pc).2) := by
  have hlen : (s.drop pc).length = s.length - pc := List.length_drop
  unfold getOpAt
  cases hs : s.drop pc with
  | nil => exact ⟨rfl, hpc, fun h => (Bool.false_ne_true h).elim⟩
  | cons opcode left =>
    rw [hs, List.length_cons] at hlen
    rw [getOp, getOp2]
    by_cases hop : opcode ≤ opPushdata4
    · simp only [hop, and_self, if_true]
      cases hsize : operandSize opcode left with
      | none => exact ⟨rfl, by dsimp only; omega, fun h => (Bool.false_ne_true h).elim⟩
      | some x =>
        have hrest := operandSize_length hsize
        have hmod := Nat.mod_le x.2.length (2 ^ 32)
        dsimp only
        split
        · exact ⟨rfl, by dsimp only; omega, fun h => (Bool.false_ne_true h).elim⟩
        · exact ⟨rfl, by dsimp only; omega, fun _ => by dsimp only; omega⟩
    · simp only [hop, false_and, if_false]
      exact ⟨rfl, by omega, fun _ => Nat.lt_succ_self pc⟩

/-- A script is read back as it was written exactly if the sizes fit, and from any position of any bytes
`GetOp` stays in the script and moves on when it succeeds. -/
theorem getOps_written_iff (items : List Item) :
    (getOps (written items) = (items.map Item.read, []) ↔ AllFit items) ∧
      ∀ (s : Bytes) pc, pc ≤ s.length → (getOpAt s pc).1 = (getOp (s.drop pc)).isSome ∧
        (getOpAt s pc).2 ≤ s.length ∧ ((getOpAt s pc).1 = true → pc < (getOpAt s pc).2) :=
  ⟨written_eq items ▸ getOps_items items, fun s _ hpc => getOpAt_spec s hpc⟩

/-- The length of a push of `2 ^ 32` bytes is written as zero. -/
theorem getOps_push_long : getOps (written [.data (List.replicate (2 ^ 32) 0)]) ≠
      ([Item.data (List.replicate (2 ^ 32) 0)].map Item.read, []) := by
  intro h
  rw [written_eq] at h
  have hlt := ((getOps_items _).1 h).1.1
  rw [List.length_replicate] at hlt
  exact Nat.lt_irrefl _ hlt

end Stealth.CScript

import Stealth.ChainParams

/-!
`EncodeBase32` and `DecodeBase32`, with a mode since the last common boundary and the bits that are left
over.
-/

namespace Stealth

def base32Char (digit : Nat) : UInt8 := UInt8.ofNat (if digit < 26 then 97 + digit else 24 + digit)

/-- The digit of a character in `decode32_table`; other characters have -1 there. -/
def decode32 (ch : UInt8) : Option Nat :=
  if 50 ≤ ch ∧ ch ≤ 55 then some (ch.toNat - 24)
  else if 65 ≤ ch ∧ ch ≤ 90 then some (ch.toNat - 65)
  else if 97 ≤ ch ∧ ch ≤ 122 then some (ch.toNat - 97)
  else none

def encodeByte : Nat → Nat → Nat → List Nat × Nat × Nat
  | 0, _, enc => ([enc >>> 3], 1, (enc &&& 7) <<< 2)
  | 1, left, enc => ([left ||| enc >>> 6, enc >>> 1 &&& 31], 2, (enc &&& 1) <<< 4)
  | 2, left, enc => ([left ||| enc >>> 4], 3, (enc &&& 15) <<< 1)
  | 3, left, enc => ([left ||| enc >>> 7, enc >>> 2 &&& 31], 4, (enc &&& 3) <<< 3)
  | _, left, enc => ([left ||| enc >>> 5, enc &&& 31], 0, left)

def nPadding (mode : Nat) : Nat := [0, 6, 4, 3, 1].getD mode 0

def encodeBase32Loop (pad : Bool) : Nat → Nat → Bytes → Bytes
  | mode, left, [] => if mode ≠ 0 ∧ pad then base32Char left :: List.replicate (nPadding mode) 61 else []
  | mode, left, enc :: pch =>
    let (digits, next) := encodeByte mode left enc.toNat
    digits.map base32Char ++ encodeBase32Loop pad next.1 next.2 pch

def encodeBase32 (pch : Bytes) (pad : Bool) : Bytes := encodeBase32Loop pad 0 0 pch

def decodeDigit : Nat → Nat → Nat → Option Nat × Nat × Nat
  | 0, _, dec => (none, 1, dec)
  | 1, left, dec => (some (left <<< 3 ||| dec >>> 2), 2, dec &&& 3)
  | 2, left, dec => (none, 3, left <<< 5 ||| dec)
  | 3, left, dec => (some (left <<< 1 ||| dec >>> 4), 4, dec &&& 15)
  | 4, left, dec => (some (left <<< 4 ||| dec >>> 1), 5, dec &&& 1)
  | 5, left, dec => (none, 6, left <<< 5 ||| dec)
  | 6, left, dec => (some (left <<< 2 ||| dec >>> 3), 7, dec &&& 7)
  | _, left, dec => (some (left <<< 5 ||| dec), 0, left)

/-- The loop of `DecodeBase32`, up to the first character that is no digit. -/
def decodeBase32Loop : Nat → Nat → Bytes → Bytes
  | _, _, [] => []
  | mode, left, p :: rest =>
    match decode32 p with
    | none => []
    | some dec =>
      let (byte, next) := decodeDigit mode left dec
      byte.toList.map UInt8.ofNat ++ decodeBase32Loop next.1 next.2 rest

def decodeBase32 (p : Bytes) : Bytes := decodeBase32Loop 0 0 p

/-- The loop with the mode, the bits left and the text where it stops. -/
def decodeBase32From : Nat → Nat → Bytes → Bytes × Nat × Nat × Bytes
  | mode, left, [] => ([], mode, left, [])
  | mode, left, p :: rest =>
    match decode32 p with
    | none => ([], mode, left, p :: rest)
    | some dec =>
      let (byte, next) := decodeDigit mode left dec
      let out := decodeBase32From next.1 next.2 rest
      (byte.toList.map UInt8.ofNat ++ out.1, out.2)

def lacksPadding (left : Nat) (p : Bytes) (n : Nat) : Bool :=
  left ≠ 0 || p.take n ≠ List.replicate n 61 || (decode32 (p.getD n 0)).isSome

/-- `*pfInvalid`, from the mode, the bits and the text that the loop leaves. -/
def base32IsInvalid : Nat × Nat × Bytes → Bool
  | (0, _, _) => false
  | (2, left, p) => lacksPadding left p 6
  | (4, left, p) => lacksPadding left p 4
  | (5, left, p) => lacksPadding left p 3
  | (7, left, p) => lacksPadding left p 1
  | _ => true

theorem decodeBase32From_fst (mode left : Nat) (p : Bytes) :
    (decodeBase32From mode left p).1 = decodeBase32Loop mode left p := by
  induction p generalizing mode left with
  | nil => rfl
  | cons ch rest ih =>
    rw [decodeBase32From, decodeBase32Loop]
    cases decode32 ch with
    | none => rfl
    | some dec => exact congrArg _ (ih _ _)

/-- A byte that is written before the rest of a run. -/
def written (b : UInt8) (out : Bytes × Nat × Nat × Bytes) : Bytes × Nat × Nat × Bytes := (b :: out.1, out.2)

theorem decode32_base32Char : ∀ digit < 32, decode32 (base32Char digit) = some digit := by
  decide

theorem decodeBase32From_char {digit : Nat} (h : digit < 32) (mode left : Nat) (rest : Bytes) :
    decodeBase32From mode left (base32Char digit :: rest) =
      let out := decodeBase32From (decodeDigit mode left digit).2.1 (decodeDigit mode left digit).2.2 rest
      ((decodeDigit mode left digit).1.toList.map UInt8.ofNat ++ out.1, out.2) := by
  rw [decodeBase32From, decode32_base32Char digit h]

theorem and_mask {m k : Nat} (n : Nat) (h : m + 1 = 2 ^ k) : n &&& m = n % 2 ^ k := by
  rw [← Nat.and_two_pow_sub_one_eq_mod, ← h, Nat.add_sub_cancel]

theorem mul_or {n i : Nat} (a : Nat) (h : n < 2 ^ i) : a * 2 ^ i ||| n = a * 2 ^ i + n := by
  rw [← Nat.shiftLeft_eq, Nat.shiftLeft_add_eq_or_of_lt h]

/-- The digit that completes a byte: the decoder has the upper bits of the byte, the encoder had the lower ones. -/
theorem decode_complete {mode i k x : Nat} (h : (mode, i, k) ∈ [(1, 3, 2), (3, 1, 4), (4, 4, 1), (6, 2, 3)])
    (b : UInt8) (hx : x < 2 ^ k) (rest : Bytes) :
    decodeBase32From mode (b.toNat / 2 ^ i) (base32Char (b.toNat % 2 ^ i * 2 ^ k + x) :: rest) =
      written b (decodeBase32From (mode + 1) x rest) := by
  have hik : i + k = 5 := by
    simp only [List.mem_cons, Prod.mk.injEq, List.not_mem_nil, or_false] at h
    omega
  have hdigit : b.toNat % 2 ^ i * 2 ^ k + x < 32 := by
    have hlow : b.toNat % 2 ^ i + 1 ≤ 2 ^ i := Nat.mod_lt _ (Nat.two_pow_pos i)
    calc b.toNat % 2 ^ i * 2 ^ k + x < (b.toNat % 2 ^ i + 1) * 2 ^ k := by rw [Nat.succ_mul]; omega
      _ ≤ 2 ^ i * 2 ^ k := Nat.mul_le_mul_right _ hlow
      _ = 32 := by rw [← Nat.pow_add, hik]
  have hhigh : (b.toNat % 2 ^ i * 2 ^ k + x) / 2 ^ k = b.toNat % 2 ^ i := by
    rw [Nat.add_comm, Nat.add_mul_div_right _ _ (Nat.two_pow_pos k), Nat.div_eq_of_lt hx, Nat.zero_add]
  have hlow : (b.toNat % 2 ^ i * 2 ^ k + x) % 2 ^ k = x := by
    rw [Nat.mul_add_mod_self_right, Nat.mod_eq_of_lt hx]
  have hbyte : UInt8.ofNat ((b.toNat / 2 ^ i) <<< i ||| (b.toNat % 2 ^ i * 2 ^ k + x) >>> k) = b := by
    rw [Nat.shiftRight_eq_div_pow, hhigh, Nat.shiftLeft_eq, mul_or _ (Nat.mod_lt _ (Nat.two_pow_pos i)),
      Nat.div_add_mod', UInt8.ofNat_toNat]
  rw [decodeBase32From_char hdigit]
  simp only [List.mem_cons, Prod.mk.injEq, List.not_mem_nil, or_false] at h
  rcases h with ⟨rfl, rfl, rfl⟩ | ⟨rfl, rfl, rfl⟩ | ⟨rfl, rfl, rfl⟩ | ⟨rfl, rfl, rfl⟩
  all_goals
    refine congrArg₂ written hbyte (congrArg (decodeBase32From _ · rest) ?_)
    exact (and_mask _ rfl).trans hlow

/-- A digit of five bits that completes no byte. -/
theorem decode_fill {mode left digit : Nat} (h : mode = 2 ∨ mode = 5) (hdigit : digit < 2 ^ 5) (rest : Bytes) :
    decodeBase32From mode left (base32Char digit :: rest) =
      decodeBase32From (mode + 1) (left * 2 ^ 5 + digit) rest := by
  have hleft : left <<< 5 ||| digit = left * 2 ^ 5 + digit := by rw [Nat.shiftLeft_eq, mul_or left hdigit]
  rw [decodeBase32From_char hdigit]
  rcases h with rfl | rfl
  all_goals exact congrArg (decodeBase32From _ · rest) hleft

theorem decode_last (b : UInt8) (rest : Bytes) :
    decodeBase32From 7 (b.toNat / 2 ^ 5) (base32Char (b.toNat % 2 ^ 5) :: rest) =
      written b (decodeBase32From 0 (b.toNat / 2 ^ 5) rest) := by
  have hdigit : b.toNat % 2 ^ 5 < 2 ^ 5 := Nat.mod_lt _ (by decide)
  rw [decodeBase32From_char hdigit]
  refine congrArg₂ written ?_ rfl
  change UInt8.ofNat ((b.toNat / 2 ^ 5) <<< 5 ||| b.toNat % 2 ^ 5) = b
  rw [Nat.shiftLeft_eq, mul_or _ hdigit, Nat.div_add_mod', UInt8.ofNat_toNat]

theorem decode_padding {mode i k : Nat} (h : (mode, i, k) ∈ [(1, 3, 2), (3, 1, 4), (4, 4, 1), (6, 2, 3)])
    (b : UInt8) (n : Nat) :
    decodeBase32From mode (b.toNat / 2 ^ i) (base32Char (b.toNat % 2 ^ i * 2 ^ k) :: List.replicate n 61) =
      ([b], mode + 1, 0, List.replicate n 61) := by
  refine (decode_complete h b (Nat.two_pow_pos k) _).trans ?_
  cases n <;> rfl

/-- The encoder and the decoder after the same bytes: their modes, the bits they have left, and the byte that the
decoder has not written yet. -/
inductive Between : Nat → Nat → Nat → Nat → Bytes → Prop
  | zero (left left' : Nat) : Between 0 left 0 left' []
  | one (b : UInt8) : Between 1 (b.toNat % 2 ^ 3 * 2 ^ 2) 1 (b.toNat / 2 ^ 3) [b]
  | two (b : UInt8) : Between 2 (b.toNat % 2 ^ 1 * 2 ^ 4) 3 (b.toNat / 2 ^ 1) [b]
  | three (b : UInt8) : Between 3 (b.toNat % 2 ^ 4 * 2 ^ 1) 4 (b.toNat / 2 ^ 4) [b]
  | four (b : UInt8) : Between 4 (b.toNat % 2 ^ 2 * 2 ^ 3) 6 (b.toNat / 2 ^ 2) [b]

variable {mode left mode' left' : Nat} {held : Bytes}

theorem mul_or_shiftRight {k j : Nat} (a : Nat) (c : UInt8) (h : k + j = 8) :
    a * 2 ^ k ||| c.toNat >>> j = a * 2 ^ k + c.toNat / 2 ^ j := by
  rw [Nat.shiftRight_eq_div_pow, mul_or]
  refine Nat.div_lt_of_lt_mul ?_
  rw [← Nat.pow_add, Nat.add_comm, h]
  exact c.toNat_lt

/-- The digits and the rest as numbers. -/
theorem encodeByte_eq (a : Nat) (c : UInt8) :
    encodeByte 0 a c.toNat = ([c.toNat / 2 ^ 3], 1, c.toNat % 2 ^ 3 * 2 ^ 2) ∧
    encodeByte 1 (a * 2 ^ 2) c.toNat =
      ([a * 2 ^ 2 + c.toNat / 2 ^ 6, c.toNat / 2 ^ 1 % 2 ^ 5], 2, c.toNat % 2 ^ 1 * 2 ^ 4) ∧
    encodeByte 2 (a * 2 ^ 4) c.toNat = ([a * 2 ^ 4 + c.toNat / 2 ^ 4], 3, c.toNat % 2 ^ 4 * 2 ^ 1) ∧
    encodeByte 3 (a * 2 ^ 1) c.toNat =
      ([a * 2 ^ 1 + c.toNat / 2 ^ 7, c.toNat / 2 ^ 2 % 2 ^ 5], 4, c.toNat % 2 ^ 2 * 2 ^ 3) ∧
    encodeByte 4 (a * 2 ^ 3) c.toNat = ([a * 2 ^ 3 + c.toNat / 2 ^ 5, c.toNat % 2 ^ 5], 0, a * 2 ^ 3) := by
  refine ⟨?_, ?_, ?_, ?_, ?_⟩
  · rw [encodeByte, Nat.shiftRight_eq_div_pow, Nat.shiftLeft_eq, and_mask (k := 3) _ rfl]
  · rw [encodeByte, mul_or_shiftRight a c rfl, Nat.shiftRight_eq_div_pow, Nat.shiftLeft_eq, and_mask (k := 5) _ rfl,
      and_mask (k := 1) _ rfl]
  · rw [encodeByte, mul_or_shiftRight a c rfl, Nat.shiftLeft_eq, and_mask (k := 4) _ rfl]
  · rw [encodeByte, mul_or_shiftRight a c rfl, Nat.shiftRight_eq_div_pow, Nat.shiftLeft_eq, and_mask (k := 5) _ rfl,
      and_mask (k := 2) _ rfl]
  · change ([a * 2 ^ 3 ||| c.toNat >>> 5, c.toNat &&& 31], 0, a * 2 ^ 3) = _
    rw [mul_or_shiftRight a c rfl, and_mask (k := 5) _ rfl]

/-- What is decoded: everything if the text is padded or ends at a boundary, and else all but the last byte. -/
def base32Kept (pad : Bool) (n : Nat) (pch : Bytes) : Bytes :=
  if pad = true ∨ n % 5 = 0 then pch else pch.dropLast

variable {pad : Bool}

/-- The decoder has what is kept of the bytes, and finds the padding if there is one. -/
structure Base32Ends (pad : Bool) (n : Nat) (pch : Bytes) (out : Bytes × Nat × Nat × Bytes) : Prop where
  bytes : out.1 = base32Kept pad n pch
  valid : pad = true → base32IsInvalid out.2 = false

namespace Base32Ends

variable {n n' : Nat} {pch : Bytes} {out : Bytes × Nat × Nat × Bytes}

theorem mod (h : Base32Ends pad n pch out) (hn : n % 5 = n' % 5) : Base32Ends pad n' pch out := by
  refine ⟨h.bytes.trans ?_, h.valid⟩
  rw [base32Kept, base32Kept, hn]

theorem cons (h : Base32Ends pad n pch out) (hpch : pch = [] → n % 5 = 0) (b : UInt8) :
    Base32Ends pad n (b :: pch) (written b out) := by
  refine ⟨(congrArg (b :: ·) h.bytes).trans ?_, h.valid⟩
  rw [base32Kept, base32Kept]
  split
  · rfl
  · next hend => exact (List.dropLast_cons_of_ne_nil fun hnil => hend (.inr (hpch hnil))).symm

theorem last {m i k : Nat}
    (h : (m, mode, i, k) ∈ [(1, 1, 3, 2), (2, 3, 1, 4), (3, 4, 4, 1), (4, 6, 2, 3)]) (b : UInt8) (pad : Bool) :
    Base32Ends pad m [b]
      (decodeBase32From mode (b.toNat / 2 ^ i) (encodeBase32Loop pad m (b.toNat % 2 ^ i * 2 ^ k) [])) := by
  simp only [List.mem_cons, Prod.mk.injEq, List.not_mem_nil, or_false] at h
  rcases h with ⟨rfl, rfl, rfl, rfl⟩ | ⟨rfl, rfl, rfl, rfl⟩ | ⟨rfl, rfl, rfl, rfl⟩ | ⟨rfl, rfl, rfl, rfl⟩
  all_goals
    cases pad with
    | false => exact ⟨rfl, fun hpad => by cases hpad⟩
    | true =>
      rw [encodeBase32Loop, if_pos ⟨by decide, rfl⟩, decode_padding (by decide)]
      exact ⟨rfl, fun _ => rfl⟩

end Base32Ends

theorem Between.decode (h : Between mode left mode' left' held) (pad : Bool) (pch : Bytes) :
    Base32Ends pad (mode + pch.length) (held ++ pch)
      (decodeBase32From mode' left' (encodeBase32Loop pad mode left pch)) := by
  induction pch generalizing mode left mode' left' held with
  | nil =>
    cases h with
    | zero left left' => cases pad <;> exact ⟨rfl, fun _ => rfl⟩
    | one b | two b | three b | four b => exact .last (by decide) b pad
  | cons c pch ih =>
    have hc := c.toNat_lt
    have hne : c :: pch = [] → (mode + (c :: pch).length) % 5 = 0 := fun hnil => by cases hnil
    have hmod : ∀ n, n % 5 = (mode + 1) % 5 → (n + pch.length) % 5 = (mode + (c :: pch).length) % 5 := by
      intro n hn
      rw [List.length_cons]
      omega
    rw [encodeBase32Loop]
    cases h with
    | zero left left' =>
      rw [(encodeByte_eq left c).1]
      simp only [List.map_cons, List.map_nil, List.cons_append, List.nil_append]
      rw [decodeBase32From_char (by omega)]
      exact (ih (.one c)).mod (hmod 1 rfl)
    | one b =>
      rw [(encodeByte_eq _ c).2.1]
      simp only [List.map_cons, List.map_nil, List.cons_append, List.nil_append]
      rw [decode_complete (i := 3) (k := 2) (by decide) b (by omega),
        decode_fill (.inl rfl) (Nat.mod_lt _ (by decide)),
        show c.toNat / 2 ^ 6 * 2 ^ 5 + c.toNat / 2 ^ 1 % 2 ^ 5 = c.toNat / 2 ^ 1 by omega]
      exact ((ih (.two c)).mod (hmod 2 rfl)).cons hne b
    | two b =>
      rw [(encodeByte_eq _ c).2.2.1]
      simp only [List.map_cons, List.map_nil, List.cons_append, List.nil_append]
      rw [decode_complete (i := 1) (k := 4) (by decide) b (by omega)]
      exact ((ih (.three c)).mod (hmod 3 rfl)).cons hne b
    | three b =>
      rw [(encodeByte_eq _ c).2.2.2.1]
      simp only [List.map_cons, List.map_nil, List.cons_append, List.nil_append]
      rw [decode_complete (i := 4) (k := 1) (by decide) b (by omega),
        decode_fill (.inr rfl) (Nat.mod_lt _ (by decide)),
        show c.toNat / 2 ^ 7 * 2 ^ 5 + c.toNat / 2 ^ 2 % 2 ^ 5 = c.toNat / 2 ^ 2 by omega]
      exact ((ih (.four c)).mod (hmod 4 rfl)).cons hne b
    | four b =>
      rw [(encodeByte_eq _ c).2.2.2.2]
      simp only [List.map_cons, List.map_nil, List.cons_append, List.nil_append]
      rw [decode_complete (i := 2) (k := 3) (by decide) b (by omega), decode_last]
      refine (((ih (.zero _ _)).mod (hmod 0 rfl)).cons (fun hnil => ?_) c).cons hne b
      obtain rfl : pch = [] := hnil
      rw [List.length_singleton]

theorem base32Ends_encode (pch : Bytes) (pad : Bool) :
    Base32Ends pad pch.length pch (decodeBase32From 0 0 (encodeBase32 pch pad)) :=
  ((Between.zero 0 0).decode pad pch).mod (by rw [Nat.zero_add])

theorem decodeBase32_encodeBase32 {pch : Bytes} (h : pad = true ∨ pch.length % 5 = 0) :
    decodeBase32 (encodeBase32 pch pad) = pch := by
  rw [decodeBase32, ← decodeBase32From_fst, (base32Ends_encode pch pad).bytes, base32Kept, if_pos h]

/-- The digit for the last bits is written together with the padding only. -/
theorem decodeBase32_encodeBase32_iff (pch : Bytes) (pad : Bool) :
    (decodeBase32 (encodeBase32 pch pad) = pch ∧
        (pad = true → base32IsInvalid (decodeBase32From 0 0 (encodeBase32 pch pad)).2 = false)) ↔
      pad = true ∨ pch.length % 5 = 0 := by
  constructor
  · rintro ⟨hdecode, -⟩
    by_contra hend
    rw [decodeBase32, ← decodeBase32From_fst, (base32Ends_encode pch pad).bytes, base32Kept, if_neg hend] at hdecode
    refine hend (.inr ?_)
    have hlength := congrArg List.length hdecode
    rw [List.length_dropLast] at hlength
    omega
  · intro h
    exact ⟨decodeBase32_encodeBase32 h, (base32Ends_encode pch pad).valid⟩

theorem decodeBase32_unpadded : decodeBase32 (encodeBase32 [0] false) = [] := by
  decide

end Stealth

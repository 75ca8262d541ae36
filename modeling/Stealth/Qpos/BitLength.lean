import Mathlib.Data.Nat.Bitwise
import Stealth.Qpos.Power

/-! The bit length of a number, as `bit_length` finds it. Its table has a six for 25 to 31. -/

namespace Stealth

def Misread (v : Nat) : Prop := ∃ k ∈ [0, 8, 16, 24], 25 * 2 ^ k ≤ v ∧ v < 32 * 2 ^ k

instance : DecidablePred Misread := fun v =>
  inferInstanceAs (Decidable (∃ k ∈ [0, 8, 16, 24], 25 * 2 ^ k ≤ v ∧ v < 32 * 2 ^ k))

variable {k v n : Nat}

theorem misread_iff : Misread v ↔ 25 ≤ v ∧ v < 32 ∨ 6400 ≤ v ∧ v < 8192 ∨
    1638400 ≤ v ∧ v < 2097152 ∨ 419430400 ≤ v ∧ v < 536870912 := by
  simp [Misread]

/-- A number with no bit at or above a position has none in the mask of the bits from there on. -/
theorem and_mask_eq_zero_iff (hv : v < 2 ^ (k + n)) : v &&& (2 ^ n - 1) <<< k = 0 ↔ v < 2 ^ k := by
  have hhigh : (v &&& (2 ^ n - 1) <<< k) >>> k = v / 2 ^ k := by
    have hlt : v / 2 ^ k < 2 ^ n := Nat.div_lt_of_lt_mul (by rwa [← Nat.pow_add])
    rw [Nat.shiftRight_and_distrib, Nat.shiftLeft_shiftRight, Nat.and_two_pow_sub_one_eq_mod,
      Nat.shiftRight_eq_div_pow, Nat.mod_eq_of_lt hlt]
  constructor
  · intro h
    rw [h, Nat.zero_shiftRight] at hhigh
    exact (Nat.div_eq_zero_iff_lt (Nat.two_pow_pos k)).1 hhigh.symm
  · intro h
    apply Nat.eq_of_testBit_eq
    intro i
    rw [Nat.testBit_and, Nat.testBit_shiftLeft, Nat.zero_testBit]
    by_cases hi : k ≤ i
    · rw [Nat.testBit_lt_two_pow (h.trans_le (Nat.pow_le_pow_right (by decide) hi)), Bool.false_and]
    · rw [decide_eq_false (by omega), Bool.false_and, Bool.and_false]

theorem mask_ne_zero_iff {v mask : UInt32} (hkn : k + n = 32) (hmask : mask.toNat = (2 ^ n - 1) <<< k) :
    v &&& mask ≠ 0 ↔ 2 ^ k ≤ v.toNat := by
  have hv : v.toNat < 2 ^ (k + n) := by
    rw [hkn]
    exact v.toNat_lt
  have hzero : v &&& mask = 0 ↔ v.toNat < 2 ^ k := by
    rw [← and_mask_eq_zero_iff hv, ← hmask, ← UInt32.toNat_and, ← UInt32.toNat_inj]
    rfl
  rw [Ne, hzero, Nat.not_lt]

theorem bitLengthTable_spec : ∀ i < 256, 0 < i → ∃ b, b < 8 ∧
    (bitLengthTable.getD i 0).toNat = b + 1 + (if 25 ≤ i ∧ i < 32 then 1 else 0) ∧ 2 ^ b ≤ i ∧
      i < 2 ^ (b + 1) := by
  decide +kernel

theorem bitLength_byte (hlow : 2 ^ k ≤ v) (hhigh : v < 2 ^ (k + 8)) : ∃ b, b < 8 ∧
    (bitLengthTable.getD (v / 2 ^ k) 0).toNat =
      b + 1 + (if 25 * 2 ^ k ≤ v ∧ v < 32 * 2 ^ k then 1 else 0) ∧
    2 ^ (k + b) ≤ v ∧ v < 2 ^ (k + b + 1) := by
  have hpos := Nat.two_pow_pos k
  have hbyte : v / 2 ^ k < 256 := Nat.div_lt_of_lt_mul (by rw [Nat.pow_add] at hhigh; exact hhigh)
  obtain ⟨b, hb, htable, hge, hlt⟩ := bitLengthTable_spec (v / 2 ^ k) hbyte (Nat.div_pos hlow hpos)
  refine ⟨b, hb, ?_, ?_, ?_⟩
  · rw [htable]
    exact congrArg _ (if_congr (and_congr (Nat.le_div_iff_mul_le hpos) (Nat.div_lt_iff_lt_mul hpos)) rfl rfl)
  · rw [Nat.pow_add, Nat.mul_comm]
    exact (Nat.le_div_iff_mul_le hpos).1 hge
  · rw [Nat.add_assoc, Nat.pow_add, Nat.mul_comm]
    exact (Nat.div_lt_iff_lt_mul hpos).1 hlt

theorem misread_iff_byte (hk : k ∈ [0, 8, 16, 24]) (hlow : 2 ^ k ≤ v) (hhigh : v < 2 ^ (k + 8)) :
    Misread v ↔ 25 * 2 ^ k ≤ v ∧ v < 32 * 2 ^ k := by
  rw [misread_iff]
  simp only [List.mem_cons, List.not_mem_nil, or_false] at hk
  rcases hk with rfl | rfl | rfl | rfl <;> omega

theorem bitLength_branch {v k : UInt32} (hk : k.toNat ∈ [0, 8, 16, 24]) (hlow : 2 ^ k.toNat ≤ v.toNat)
    (hhigh : v.toNat < 2 ^ (k.toNat + 8)) : ∃ b,
    (k + bitLengthTable.getD (v >>> k).toNat 0).toNat = b + 1 + (if Misread v.toNat then 1 else 0) ∧
    2 ^ b ≤ v.toNat ∧ v.toNat < 2 ^ (b + 1) := by
  obtain ⟨b, hb, htable, hge, hlt⟩ := bitLength_byte hlow hhigh
  rw [← if_congr (misread_iff_byte hk hlow hhigh) rfl rfl] at htable
  have hk24 : k.toNat ≤ 24 := by
    simp only [List.mem_cons, List.not_mem_nil, or_false] at hk
    omega
  have hshift : (v >>> k).toNat = v.toNat / 2 ^ k.toNat := by
    rw [UInt32.toNat_shiftRight, Nat.mod_eq_of_lt (by omega), Nat.shiftRight_eq_div_pow]
  refine ⟨k.toNat + b, ?_, hge, hlt⟩
  rw [hshift, UInt32.toNat_add, htable, Nat.mod_eq_of_lt]
  · omega
  · split <;> omega

theorem bitLength_spec {v : UInt32} (hv : 0 < v.toNat) : ∃ b,
    (bitLength v).toNat = b + 1 + (if Misread v.toNat then 1 else 0) ∧ 2 ^ b ≤ v.toNat ∧
      v.toNat < 2 ^ (b + 1) := by
  rw [bitLength, if_congr (mask_ne_zero_iff (k := 24) (n := 8) rfl rfl) rfl rfl,
    if_congr (mask_ne_zero_iff (k := 16) (n := 16) rfl rfl) rfl rfl,
    if_congr (mask_ne_zero_iff (k := 8) (n := 24) rfl rfl) rfl rfl]
  split
  · next h24 => exact bitLength_branch (k := 24) (by decide) h24 v.toNat_lt
  split
  · next h24 h16 => exact bitLength_branch (k := 16) (by decide) h16 (Nat.not_le.1 h24)
  split
  · next h16 h8 => exact bitLength_branch (k := 8) (by decide) h8 (Nat.not_le.1 h16)
  · next h8 =>
    have hlast := bitLength_branch (k := 0) (by decide) hv (Nat.not_le.1 h8)
    simpa using hlast

theorem length_of_byte (hlow : 2 ^ k ≤ v) (hhigh : v < 2 ^ (k + 8)) :
    v < 2 ^ (k + (bitLengthTable.getD (v / 2 ^ k) 0).toNat) ∧ (bitLengthTable.getD (v / 2 ^ k) 0).toNat ≤ 8 ∧
      (v < 2 ^ (k + 7) → (bitLengthTable.getD (v / 2 ^ k) 0).toNat ≤ 7) := by
  obtain ⟨b, hb, htable, hge, hlt⟩ := bitLength_byte hlow hhigh
  have hbelow : ∀ c, v < 2 ^ (k + c) → b < c := fun c hc =>
    Nat.lt_of_add_lt_add_left ((Nat.pow_lt_pow_iff_right (by decide)).1 (hge.trans_lt hc))
  rw [htable]
  split
  · next hmis =>
    have h5 := hbelow 5 (by rw [Nat.pow_add, Nat.mul_comm]; exact hmis.2)
    refine ⟨hlt.trans_le (Nat.pow_le_pow_right (by decide) ?_), ?_, fun _ => ?_⟩ <;> omega
  · refine ⟨hlt, hb, fun h7 => ?_⟩
    have := hbelow 7 h7
    omega

theorem bitLength_bound {n : UInt32} (hn : 0 < n.toNat) :
    n.toNat < 2 ^ (bitLength n).toNat ∧ (bitLength n).toNat ≤ 32 := by
  obtain ⟨b, hb, hge, hlt⟩ := bitLength_spec hn
  have hbelow : ∀ c, n.toNat < 2 ^ c → b < c := fun c hc =>
    (Nat.pow_lt_pow_iff_right (by decide)).1 (hge.trans_lt hc)
  have h32 := hbelow 32 n.toNat_lt
  rw [hb]
  refine ⟨hlt.trans_le (Nat.pow_le_pow_right (by decide) (Nat.le_add_right _ _)), ?_⟩
  split
  · next hmis =>
    have h29 := hbelow 29 (by rw [misread_iff] at hmis; omega)
    omega
  · exact h32

def bitLength64From (v : UInt64) : List UInt64 → UInt64
  | [] => (bitLengthTable.getD v.toNat 0).toUInt64
  | k :: places =>
    if v &&& (0xffffffffffffffff <<< k) ≠ 0 then k + (bitLengthTable.getD (v >>> k).toNat 0).toUInt64
    else bitLength64From v places

def bitLength64 (v : UInt64) : UInt64 := bitLength64From v [56, 48, 40, 32, 24, 16, 8]

/-- Places that go down byte by byte from a bound, with the masks of the bits from there on. -/
def BytePlaces : Nat → List UInt64 → Prop
  | hi, [] => hi = 8
  | hi, k :: places => k.toNat + 8 = hi ∧ hi ≤ 64 ∧
      ((0xffffffffffffffff : UInt64) <<< k).toNat = (2 ^ (64 - k.toNat) - 1) <<< k.toNat ∧ BytePlaces k.toNat places

theorem bitLength64From_bound {v : UInt64} (hv : 0 < v.toNat) {places : List UInt64} {hi : Nat}
    (hplaces : BytePlaces hi places) (hhi : v.toNat < 2 ^ hi) :
    v.toNat < 2 ^ (bitLength64From v places).toNat ∧ (bitLength64From v places).toNat ≤ hi ∧
      (v.toNat < 2 ^ (hi - 1) → (bitLength64From v places).toNat ≤ hi - 1) := by
  induction places generalizing hi with
  | nil =>
    obtain rfl : hi = 8 := hplaces
    have hbyte := length_of_byte (k := 0) hv hhi
    rw [Nat.pow_zero, Nat.div_one, Nat.zero_add] at hbyte
    rwa [bitLength64From, UInt32.toNat_toUInt64]
  | cons k places ih =>
    obtain ⟨rfl, h64, hmask, hrest⟩ := hplaces
    have hzero : v &&& (0xffffffffffffffff <<< k) = 0 ↔ v.toNat < 2 ^ k.toNat := by
      have hv64 : v.toNat < 2 ^ (k.toNat + (64 - k.toNat)) := by
        rw [Nat.add_sub_cancel' (by omega)]
        exact v.toNat_lt
      rw [← and_mask_eq_zero_iff hv64, ← hmask, ← UInt64.toNat_and, ← UInt64.toNat_inj]
      rfl
    rw [bitLength64From]
    split
    · next hk =>
      obtain ⟨hlt, h8, h7⟩ := length_of_byte (Nat.not_lt.1 (mt hzero.2 hk)) hhi
      have hshift : (v >>> k).toNat = v.toNat / 2 ^ k.toNat := by
        rw [UInt64.toNat_shiftRight, Nat.mod_eq_of_lt (by omega), Nat.shiftRight_eq_div_pow]
      rw [hshift, UInt64.toNat_add, UInt32.toNat_toUInt64, Nat.mod_eq_of_lt (by omega)]
      exact ⟨hlt, Nat.add_le_add_left h8 _, fun h => Nat.add_le_add_left (h7 h) _⟩
    · next hk =>
      obtain ⟨hlt, hle, -⟩ := ih hrest (hzero.1 (not_not.1 hk))
      exact ⟨hlt, by omega, fun _ => by omega⟩

theorem bitLength64_bound {v : UInt64} (hv : 0 < v.toNat) :
    v.toNat < 2 ^ (bitLength64 v).toNat ∧ (bitLength64 v).toNat ≤ 64 ∧
      (v.toNat < 2 ^ 63 → (bitLength64 v).toNat ≤ 63) := by
  refine bitLength64From_bound hv ?_ v.toNat_lt
  simp only [BytePlaces]
  decide

end Stealth

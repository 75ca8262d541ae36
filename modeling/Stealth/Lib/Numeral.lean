import Mathlib.Data.Nat.Digits.Lemmas

/-! Numerals with leading zeros: a list of digits is the number of its leading zeros and its value. -/

namespace Numeral

variable {β : Nat} {l : List Nat}

def value (β : Nat) (l : List Nat) : Nat := Nat.ofDigits β l.reverse

def leadingZeros (l : List Nat) : Nat := (l.takeWhile (· == 0)).length

/-- The digits of a value, the most significant one first, after some zeros. -/
def numeral (β z v : Nat) : List Nat := List.replicate z 0 ++ (Nat.digits β v).reverse

theorem value_cons (β d : Nat) (l : List Nat) : value β (d :: l) = d * β ^ l.length + value β l := by
  rw [value, List.reverse_cons, Nat.ofDigits_append, Nat.ofDigits_singleton, List.length_reverse, value]
  ring

theorem foldl_eq (β n : Nat) (l : List Nat) :
    l.foldl (fun n d => n * β + d) n = n * β ^ l.length + value β l := by
  induction l generalizing n with
  | nil => simp [value]
  | cons d l ih =>
    rw [List.foldl_cons, ih, value_cons, List.length_cons]
    ring

theorem value_zero_cons (β : Nat) (l : List Nat) : value β (0 :: l) = value β l := by
  rw [value_cons, Nat.zero_mul, Nat.zero_add]

theorem lt_of_mem_numeral (hβ : 1 < β) {z v d : Nat} (h : d ∈ numeral β z v) : d < β := by
  rw [numeral, List.mem_append, List.mem_reverse] at h
  obtain h | h := h
  · rw [List.eq_of_mem_replicate h]
    omega
  · exact Nat.digits_lt_base hβ h

theorem length_numeral (β z v : Nat) : (numeral β z v).length = z + (Nat.digits β v).length := by
  rw [numeral, List.length_append, List.length_replicate, List.length_reverse]

theorem value_numeral (β z v : Nat) : value β (numeral β z v) = v := by
  induction z with
  | zero => rw [value, numeral, List.replicate_zero, List.nil_append, List.reverse_reverse, Nat.ofDigits_digits]
  | succ z ih => exact (value_zero_cons β (numeral β z v)).trans ih

theorem leadingZeros_numeral (β z v : Nat) : leadingZeros (numeral β z v) = z := by
  induction z with
  | zero =>
    rw [numeral, List.replicate_zero, List.nil_append]
    cases h : (Nat.digits β v).reverse with
    | nil => rfl
    | cons d l =>
      have hv : v ≠ 0 := by
        rintro rfl
        simp at h
      have hlast := Nat.getLast_digit_ne_zero β hv
      simp only [List.getLast_eq_head_reverse, h, List.head_cons] at hlast
      simp [leadingZeros, hlast]
  | succ z ih => exact congrArg (· + 1) ih

/-- Every list of digits is the numeral of its leading zeros and its value. -/
theorem numeral_eq (hβ : 1 < β) (h : ∀ d ∈ l, d < β) : numeral β (leadingZeros l) (value β l) = l := by
  induction l with
  | nil => simp [numeral, leadingZeros, value]
  | cons d l ih =>
    obtain ⟨-, hl⟩ := List.forall_mem_cons.1 h
    by_cases hd : d = 0
    · subst hd
      rw [value_zero_cons]
      exact congrArg (0 :: ·) (ih hl)
    · have hzeros : leadingZeros (d :: l) = 0 := by simp [leadingZeros, hd]
      rw [hzeros, numeral, value, Nat.digits_ofDigits β hβ]
      · simp
      · exact fun x hx => h x (List.mem_reverse.1 hx)
      · simpa using hd

end Numeral

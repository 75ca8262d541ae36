import Mathlib.Tactic.Linarith
import Mathlib.Tactic.Ring

/-! The Newton iteration for integer square roots, from an estimate that is not below the root. -/

namespace Newton

variable {n x : Nat}

def step (n x : Nat) : Nat := (x + n / x) / 2

theorem sqrt_le_step (hx : 0 < x) : Nat.sqrt n ≤ step n x := by
  have hroot : Nat.sqrt n * Nat.sqrt n ≤ n := Nat.sqrt_le n
  have hdiv : 2 * Nat.sqrt n ≤ x + n / x := by
    by_cases hle : 2 * Nat.sqrt n ≤ x
    · exact Nat.le_add_right_of_le hle
    · have hsquare : (2 * Nat.sqrt n - x) * x ≤ Nat.sqrt n * Nat.sqrt n := by
        -- the product of two numbers is at most the square of their mean
        zify [Nat.le_of_not_le hle]
        nlinarith only [sq_nonneg ((Nat.sqrt n : Int) - x)]
      have hle' : 2 * Nat.sqrt n - x ≤ n / x := (Nat.le_div_iff_mul_le hx).2 (Nat.le_trans hsquare hroot)
      omega
  rw [step, Nat.le_div_iff_mul_le (by decide)]
  omega

theorem eq_sqrt_of_le_step (hx : 0 < x) (hroot : Nat.sqrt n ≤ x) (h : x ≤ step n x) : x = Nat.sqrt n := by
  rw [step, Nat.le_div_iff_mul_le (by decide)] at h
  have hdiv : x ≤ n / x := by omega
  have hle : x ≤ Nat.sqrt n := Nat.le_sqrt.2 ((Nat.le_div_iff_mul_le hx).1 hdiv)
  exact Nat.le_antisymm hle hroot

theorem div_le (hroot : Nat.sqrt n ≤ x) : n / x ≤ x + 2 := by
  have hlt : n < (x + 1) * (x + 1) := Nat.sqrt_lt.1 (Nat.lt_succ_of_le hroot)
  rcases Nat.eq_zero_or_pos x with rfl | hx
  · rw [Nat.div_zero]
    exact Nat.zero_le _
  · refine Nat.le_of_lt_succ ((Nat.div_lt_iff_lt_mul hx).2 (Nat.lt_of_lt_of_le hlt ?_))
    calc (x + 1) * (x + 1) = x * x + 2 * x + 1 := by ring
      _ ≤ x * x + 2 * x + x := by omega
      _ = (x + 2 + 1) * x := by ring

end Newton

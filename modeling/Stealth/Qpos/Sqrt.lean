import Stealth.Lib.Newton
import Stealth.Qpos.BitLength

/-! `uisqrt` is the integer square root: its first estimate may be too large, but is never below the root. -/

namespace Stealth

variable {n x : UInt32}

theorem pos_of_ne_zero (hn : n ≠ 0) : 0 < n.toNat := Nat.pos_of_ne_zero fun hzero => hn (UInt32.toNat.inj hzero)

def uisqrtStart (n : UInt32) : UInt32 :=
  let b := bitLength n
  let x := (1 : UInt32) <<< (b >>> 1)
  if b ^^^ x ≠ 0 then x <<< 1 else x

def uisqrtNext (n x : UInt32) : UInt32 := (x + n / x) >>> 1

/-- The loop from an estimate to the result. No step divides by zero, and no sum wraps around. -/
inductive UisqrtRun (n : UInt32) : UInt32 → UInt32 → Prop
  | stop {x : UInt32} (hx : x ≠ 0) (hadd : x.toNat + n.toNat / x.toNat < 4294967296) (h : ¬uisqrtNext n x < x) :
      UisqrtRun n x x
  | step {x r : UInt32} (hx : x ≠ 0) (hadd : x.toNat + n.toNat / x.toNat < 4294967296) (h : uisqrtNext n x < x)
      (hrun : UisqrtRun n (uisqrtNext n x) r) : UisqrtRun n x r

/-- An estimate that is not below the root. -/
structure Estimate (n x : UInt32) : Prop where
  pos : 0 < x.toNat
  root : Nat.sqrt n.toNat ≤ x.toNat
  bound : x.toNat ≤ 131072

namespace Estimate

theorem noWrap (h : Estimate n x) : x.toNat + n.toNat / x.toNat < 4294967296 := by
  have hdiv := Newton.div_le h.root
  have hbound := h.bound
  omega

theorem next_toNat (h : Estimate n x) : (uisqrtNext n x).toNat = Newton.step n.toNat x.toNat := by
  rw [uisqrtNext, UInt32.toNat_shiftRight, UInt32.toNat_add, UInt32.toNat_div, Nat.mod_eq_of_lt h.noWrap,
    Nat.shiftRight_eq_div_pow]
  rfl

theorem next (h : Estimate n x) (hn : n ≠ 0) (hlt : uisqrtNext n x < x) : Estimate n (uisqrtNext n x) := by
  have hroot : Nat.sqrt n.toNat ≤ (uisqrtNext n x).toNat := by
    rw [h.next_toNat]
    exact Newton.sqrt_le_step h.pos
  have hpos : 0 < Nat.sqrt n.toNat := Nat.sqrt_pos.2 (pos_of_ne_zero hn)
  exact ⟨Nat.lt_of_lt_of_le hpos hroot, hroot, Nat.le_trans (Nat.le_of_lt hlt) h.bound⟩

theorem run (hn : n ≠ 0) : ∀ {fuel : Nat} {x : UInt32}, Estimate n x → x.toNat ≤ fuel →
    UisqrtRun n x (uisqrtLoop n fuel x) ∧ (uisqrtLoop n fuel x).toNat = Nat.sqrt n.toNat
  | 0, x, h, hfuel => absurd (Nat.lt_of_lt_of_le h.pos hfuel) (Nat.lt_irrefl 0)
  | fuel + 1, x, h, hfuel => by
    have hx : x ≠ 0 := fun hzero => absurd (congrArg UInt32.toNat hzero) h.pos.ne'
    rw [uisqrtLoop]
    by_cases hlt : uisqrtNext n x < x
    · obtain ⟨hrun, hroot⟩ := run hn (h.next hn hlt) (Nat.le_of_lt_succ (Nat.lt_of_lt_of_le hlt hfuel))
      exact ⟨(if_pos hlt).symm ▸ .step hx h.noWrap hlt hrun, (if_pos hlt).symm ▸ hroot⟩
    · have hle : x.toNat ≤ Newton.step n.toNat x.toNat := by
        rw [← h.next_toNat]
        exact Nat.le_of_not_lt hlt
      have hroot := Newton.eq_sqrt_of_le_step h.pos h.root hle
      exact ⟨(if_neg hlt).symm ▸ .stop hx h.noWrap hlt, (if_neg hlt).symm ▸ hroot⟩

end Estimate

theorem start_bound : ∀ b < 33, let b : UInt32 := UInt32.ofNat b
    let x := (1 : UInt32) <<< (b >>> 1)
    let x := if b ^^^ x ≠ 0 then x <<< 1 else x
    0 < x.toNat ∧ 2 ^ b.toNat ≤ (x.toNat + 1) * (x.toNat + 1) ∧ x.toNat ≤ 131072 := by decide +kernel

theorem estimate_start (hn : n ≠ 0) : Estimate n (uisqrtStart n) := by
  obtain ⟨hlt, hle⟩ := bitLength_bound (pos_of_ne_zero hn)
  have hstart := start_bound (bitLength n).toNat (Nat.lt_succ_of_le hle)
  rw [UInt32.ofNat_toNat] at hstart
  obtain ⟨hpos, hsquare, hbound⟩ := hstart
  exact ⟨hpos, Nat.le_of_lt_succ (Nat.sqrt_lt.2 (Nat.lt_of_lt_of_le hlt hsquare)), hbound⟩

/-- What `uisqrt` computes for a number that is not zero is defined, and the loop ends. -/
structure UisqrtDefined (n : UInt32) : Prop where
  length : (bitLength n).toNat ≤ 32
  shift : 2 * 2 ^ ((bitLength n).toNat / 2) < 4294967296
  run : UisqrtRun n (uisqrtStart n) (uisqrt n)

theorem uisqrt_isGreatest (n : UInt32) :
    (n = 0 ∨ UisqrtDefined n) ∧ IsGreatest {r : Nat | r * r ≤ n.toNat} (uisqrt n).toNat := by
  by_cases hn : n = 0
  · subst hn
    refine ⟨.inl rfl, Nat.le_refl 0, fun r hr => ?_⟩
    exact Nat.le_trans (Nat.le_mul_self r) hr
  · have huisqrt : uisqrt n = uisqrtLoop n (uisqrtStart n).toNat (uisqrtStart n) := if_neg hn
    obtain ⟨hrun, hroot⟩ := (estimate_start hn).run hn (Nat.le_refl _)
    rw [← huisqrt] at hrun hroot
    have hlength := (bitLength_bound (pos_of_ne_zero hn)).2
    refine ⟨.inr ⟨hlength, ?_, hrun⟩, ?_, fun r hr => ?_⟩
    · have hpow : 2 ^ ((bitLength n).toNat / 2) ≤ 2 ^ 16 := Nat.pow_le_pow_right (by decide) (by omega)
      omega
    · rw [hroot]
      exact Nat.sqrt_le n.toNat
    · rw [hroot]
      exact Nat.le_sqrt.2 hr

section
variable {n x : UInt64}

/-- `1 << k` in an `int`, converted to 64 bits. The sign bit is extended, and a shift by 32 is out of range. -/
def shiftedOne (k : UInt64) : Option UInt64 :=
  if k < 31 then some (1 <<< k) else if k = 31 then some 0xffffffff80000000 else none

/-- The loop, with no result if it divides by zero or takes more rounds than the fuel. -/
def uisqrtLoop64 (n : UInt64) : Nat → UInt64 → Option UInt64
  | 0, _ => none
  | fuel + 1, x =>
    if x = 0 then none
    else
      let y := (x + n / x) >>> 1
      if y < x then uisqrtLoop64 n fuel y else some x

def uisqrt64 (n : UInt64) : Option UInt64 :=
  if n = 0 then some 0
  else
    let b := bitLength64 n
    (shiftedOne (b >>> 1)).bind fun x =>
      let x := if b ^^^ x ≠ 0 then x <<< 1 else x
      uisqrtLoop64 n x.toNat x

theorem toNat_next64 (hn : n.toNat < 2 ^ 63) (hx : x.toNat ≤ 2 ^ 64 - 2 ^ 32) (hroot : Nat.sqrt n.toNat ≤ x.toNat) :
    ((x + n / x) >>> 1).toNat = Newton.step n.toNat x.toNat := by
  have hadd : x.toNat + n.toNat / x.toNat < 2 ^ 64 := by
    by_cases hsmall : x.toNat ≤ 2 ^ 32
    · have hdiv := Newton.div_le hroot
      omega
    · have hdiv : n.toNat / x.toNat < 2 ^ 32 := by
        refine Nat.div_lt_of_lt_mul (hn.trans_le ?_)
        calc 2 ^ 63 ≤ 2 ^ 32 * 2 ^ 32 := by decide
          _ ≤ x.toNat * 2 ^ 32 := Nat.mul_le_mul_right _ (Nat.le_of_not_le hsmall)
      omega
  rw [UInt64.toNat_shiftRight, UInt64.toNat_add, UInt64.toNat_div, Nat.mod_eq_of_lt hadd, Nat.shiftRight_eq_div_pow]
  rfl

theorem uisqrtLoop64_eq (hpos : 0 < n.toNat) (hn : n.toNat < 2 ^ 63) {fuel : Nat} (hx : x.toNat ≤ 2 ^ 64 - 2 ^ 32)
    (hroot : Nat.sqrt n.toNat ≤ x.toNat) (hfuel : x.toNat ≤ fuel) :
    ∃ r, uisqrtLoop64 n fuel x = some r ∧ r.toNat = Nat.sqrt n.toNat := by
  have hsqrt : 0 < Nat.sqrt n.toNat := Nat.sqrt_pos.2 hpos
  induction fuel generalizing x with
  | zero => omega
  | succ fuel ih =>
    have hx0 : x ≠ 0 := fun hzero => absurd (congrArg UInt64.toNat hzero) (hsqrt.trans_le hroot).ne'
    have hnext := toNat_next64 hn hx hroot
    rw [uisqrtLoop64, if_neg hx0]
    by_cases hlt : (x + n / x) >>> 1 < x
    · have hstep : Nat.sqrt n.toNat ≤ ((x + n / x) >>> 1).toNat := by
        rw [hnext]
        exact Newton.sqrt_le_step (hsqrt.trans_le hroot)
      rw [if_pos hlt]
      exact ih (Nat.le_trans (Nat.le_of_lt hlt) hx) hstep (Nat.le_of_lt_succ (Nat.lt_of_lt_of_le hlt hfuel))
    · have hle : x.toNat ≤ Newton.step n.toNat x.toNat := by
        rw [← hnext]
        exact Nat.le_of_not_lt hlt
      exact ⟨x, if_neg hlt, Newton.eq_sqrt_of_le_step (hsqrt.trans_le hroot) hroot hle⟩

theorem start64_bound : ∀ b < 64, ∃ x, shiftedOne (UInt64.ofNat b >>> 1) = some x ∧
    let x := if UInt64.ofNat b ^^^ x ≠ 0 then x <<< 1 else x
    2 ^ b ≤ (x.toNat + 1) * (x.toNat + 1) ∧ x.toNat ≤ 2 ^ 64 - 2 ^ 32 := by
  intro b hb
  have hsome : ∀ b < 64, (shiftedOne (UInt64.ofNat b >>> 1)).any (fun x =>
      let x := if UInt64.ofNat b ^^^ x ≠ 0 then x <<< 1 else x
      2 ^ b ≤ (x.toNat + 1) * (x.toNat + 1) ∧ x.toNat ≤ 2 ^ 64 - 2 ^ 32) = true := by decide +kernel
  obtain ⟨x, hx, hbound⟩ := (Option.any_eq_true ..).1 (hsome b hb)
  exact ⟨x, hx, of_decide_eq_true hbound⟩

/-- The first estimate is shifted in 32 bits, which are not enough for numbers of 64 bits. -/
theorem uisqrt64_isGreatest_iff (n : UInt64) :
    (∃ r, uisqrt64 n = some r ∧ IsGreatest {k : Nat | k * k ≤ n.toNat} r.toNat) ↔ n.toNat < 2 ^ 63 := by
  by_cases hn : n = 0
  · subst hn
    refine iff_of_true ⟨0, rfl, Nat.le_refl 0, fun r hr => Nat.le_trans (Nat.le_mul_self r) hr⟩ (by decide)
  have hpos : 0 < n.toNat := Nat.pos_of_ne_zero fun hzero => hn (UInt64.toNat.inj hzero)
  obtain ⟨hlt, h64, h63⟩ := bitLength64_bound hpos
  rw [uisqrt64, if_neg hn]
  constructor
  · intro h
    by_contra hge
    have hb : bitLength64 n = 64 := by
      refine UInt64.toNat.inj (Nat.le_antisymm h64 ?_)
      exact (Nat.pow_lt_pow_iff_right (by decide)).1 ((Nat.not_lt.1 hge).trans_lt hlt)
    rw [hb] at h
    obtain ⟨r, hr, -⟩ := h
    cases hr
  · intro hn63
    obtain ⟨x, hx, hsquare, hbound⟩ := start64_bound _ (Nat.lt_succ_of_le (h63 hn63))
    rw [UInt64.ofNat_toNat] at hx hsquare hbound
    dsimp only
    rw [hx, Option.bind_some]
    have hroot := Nat.le_of_lt_succ (Nat.sqrt_lt.2 (Nat.lt_of_lt_of_le hlt hsquare))
    obtain ⟨r, hr, hsqrt⟩ := uisqrtLoop64_eq hpos hn63 hbound hroot (Nat.le_refl _)
    refine ⟨r, hr, ?_, fun k hk => ?_⟩
    · rw [hsqrt]
      exact Nat.sqrt_le n.toNat
    · rw [hsqrt]
      exact Nat.le_sqrt.2 hk

theorem uisqrt64_high : uisqrt64 0x8000000000000000 = none := by
  decide +kernel

end

end Stealth

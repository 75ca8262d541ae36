import Stealth.Wallet.Base58

/-!
Amounts as text. `FormatMoney` trims zeros by looking two characters back, and `ParseMoney` adds up the
fraction with a multiplier that falls to zero.
-/

namespace Stealth.Money

open Base58 (isspace)

/-- The zeros that are trimmed, counted in the text read backwards. -/
def nTrim : List Char → Nat
  | c :: c' :: c'' :: str => if c = '0' ∧ c''.isDigit then nTrim (c' :: c'' :: str) + 1 else 0
  | _ => 0

def trimZeros (str : List Char) : List Char := str.take (str.length - nTrim str.reverse)

def formatMoney (n : Int) (fPlus : Bool) : List Char :=
  let n_abs := n.natAbs
  let remainder := Nat.toDigits 10 (n_abs % COIN.toNat)
  let str := trimZeros
    (Nat.toDigits 10 (n_abs / COIN.toNat) ++ '.' :: (List.replicate (6 - remainder.length) '0' ++ remainder))
  if n < 0 then '-' :: str else if fPlus ∧ n > 0 then '+' :: str else str

def parseFraction : Nat → Nat → List Char → Nat × List Char
  | nUnits, _, [] => (nUnits, [])
  | nUnits, nMult, c :: p =>
    if c.isDigit ∧ nMult > 0 then parseFraction (nUnits + nMult * (c.toNat - '0'.toNat)) (nMult / 10) p
    else (nUnits, c :: p)

/-- The whole part, the units of the fraction and the text after them. -/
def parseDigits : List Char → List Char → Option (List Char × Nat × List Char)
  | strWhole, [] => some (strWhole, 0, [])
  | strWhole, c :: p =>
    if c = '.' then some (strWhole, parseFraction 0 (CENT.toNat * 10) p)
    else if isspace c then some (strWhole, 0, c :: p)
    else if c.isDigit then parseDigits (strWhole ++ [c]) p
    else none

/-- `strtoll` on digits. -/
def atoi64 (str : List Char) : Int := min (Nat.ofDigitChars 10 str 0) (2 ^ 63 - 1)

def parseMoney (pszIn : List Char) : Option Int := do
  let (strWhole, nUnits, p) ← parseDigits [] (pszIn.dropWhile isspace)
  if !p.all isspace ∨ strWhole.length > 10 ∨ nUnits > COIN.toNat then none
  else some (Int.bmod (atoi64 strWhole * COIN + nUnits) (2 ^ 64))

theorem ne_point {c : Char} (h : c.isDigit) : c ≠ '.' := by
  rintro rfl
  cases h

theorem not_isspace {c : Char} (h : c.isDigit) : isspace c = false := by
  have hge : '0' ≤ c := of_decide_eq_true (Bool.and_eq_true_iff.1 h).1
  have hlt : ¬ c ≤ '\r' := fun hle => absurd (Char.le_trans hge hle) (by decide)
  have hne : c ≠ ' ' := by
    rintro rfl
    cases h
  simp [isspace, hlt, hne]

section

variable {l : List Char} (hl : ∀ c ∈ l, c.isDigit)
include hl

theorem ofDigitChars_lt : Nat.ofDigitChars 10 l 0 < 10 ^ l.length := by
  induction l with
  | nil => decide
  | cons c l ih =>
    obtain ⟨hc, hl⟩ := List.forall_mem_cons.1 hl
    have hlt := ih hl
    have hdigit : c.toNat - '0'.toNat ≤ 9 := by
      have hle : c.toNat ≤ '9'.toNat := (Bool.and_eq_true_iff.1 hc).2 |> of_decide_eq_true
      have hnine : '9'.toNat = '0'.toNat + 9 := rfl
      omega
    rw [Nat.ofDigitChars_cons, Nat.ofDigitChars_eq_ofDigitChars_zero, List.length_cons, Nat.pow_succ]
    nlinarith [Nat.mul_le_mul_left (10 ^ l.length) hdigit]

/-- The digits of a fraction up to the sixth, counted in units. -/
theorem parseFraction_eq (k nUnits : Nat) : parseFraction nUnits (10 ^ k / 10) l =
    (nUnits + Nat.ofDigitChars 10 (l.take k) 0 * 10 ^ (k - l.length), l.drop k) := by
  induction l generalizing k nUnits with
  | nil => simp [parseFraction]
  | cons c l ih =>
    obtain ⟨hc, hl⟩ := List.forall_mem_cons.1 hl
    cases k with
    | zero => simp [parseFraction]
    | succ k =>
      have hpow : 10 ^ (k + 1) / 10 = 10 ^ k := by simp [Nat.pow_succ]
      rw [parseFraction, hpow, if_pos ⟨hc, by positivity⟩, ih hl, List.take_succ_cons,
        List.drop_succ_cons, Nat.ofDigitChars_cons, @Nat.ofDigitChars_eq_ofDigitChars_zero (l.take k) (10 * 0 + _),
        List.length_cons, Nat.add_sub_add_right, List.length_take]
      have hsplit : 10 ^ k = 10 ^ min k l.length * 10 ^ (k - l.length) := by
        rw [← Nat.pow_add]
        congr 1
        omega
      rw [hsplit]
      congr 1
      ring

theorem parseDigits_append (strWhole p : List Char) :
    parseDigits strWhole (l ++ p) = parseDigits (strWhole ++ l) p := by
  induction l generalizing strWhole with
  | nil => simp
  | cons c l ih =>
    obtain ⟨hc, hl⟩ := List.forall_mem_cons.1 hl
    rw [List.cons_append, parseDigits, if_neg (ne_point hc), if_neg (by simp [not_isspace hc]), if_pos hc, ih hl,
      List.append_assoc, List.singleton_append]

end

/-- The value of the text `whole.frac` in units. -/
def units (whole frac : List Char) : Nat :=
  Nat.ofDigitChars 10 whole 0 * COIN.toNat + Nat.ofDigitChars 10 frac 0 * 10 ^ (6 - frac.length)

section

variable {whole frac p : List Char} (hw : ∀ c ∈ whole, c.isDigit) (hf : ∀ c ∈ frac, c.isDigit)
include hf

theorem fraction_lt : Nat.ofDigitChars 10 (frac.take 6) 0 * 10 ^ (6 - frac.length) < COIN.toNat := by
  have hlt : Nat.ofDigitChars 10 (frac.take 6) 0 < 10 ^ (frac.take 6).length :=
    ofDigitChars_lt fun c hc => hf c (List.mem_of_mem_take hc)
  calc
    _ < 10 ^ (frac.take 6).length * 10 ^ (6 - frac.length) := Nat.mul_lt_mul_of_pos_right hlt (by positivity)
    _ = 10 ^ 6 := by
      rw [← Nat.pow_add, List.length_take]
      congr 1
      omega

theorem parseDigits_point (hp : p = [] ∧ frac = [] ∨ p = '.' :: frac) : parseDigits whole p =
    some (whole, Nat.ofDigitChars 10 (frac.take 6) 0 * 10 ^ (6 - frac.length), frac.drop 6) := by
  obtain ⟨rfl, rfl⟩ | rfl := hp
  · rfl
  · have hfraction := parseFraction_eq hf 6 0
    rw [Nat.zero_add] at hfraction
    rw [parseDigits, if_pos rfl]
    exact congrArg (fun x => some (whole, x)) hfraction

include hw

/-- A decimal text is accepted up to ten digits before the point and six after it. -/
theorem parseMoney_append (hne : whole ≠ []) (hp : p = [] ∧ frac = [] ∨ p = '.' :: frac) :
    parseMoney (whole ++ p) =
      if whole.length ≤ 10 ∧ frac.length ≤ 6 then some (units whole frac : Int) else none := by
  have hdrop : (whole ++ p).dropWhile isspace = whole ++ p := by
    cases whole with
    | nil => exact absurd rfl hne
    | cons c whole => exact List.dropWhile_cons_of_neg (by simp [not_isspace (hw c List.mem_cons_self)])
  have hfraction := fraction_lt hf
  rw [parseMoney, hdrop, parseDigits_append hw, List.nil_append, parseDigits_point hf hp, Option.bind_eq_bind,
    Option.bind_some]
  dsimp only
  by_cases hfrac : frac.length ≤ 6
  · rw [List.take_of_length_le hfrac] at hfraction ⊢
    rw [List.drop_of_length_le hfrac]
    by_cases hwhole : whole.length ≤ 10
    · have hlt := ofDigitChars_lt hw
      have hpow := Nat.pow_le_pow_right (by decide : 0 < 10) hwhole
      rw [if_neg (by simp; omega), if_pos ⟨hwhole, hfrac⟩, atoi64, Int.min_eq_left (by omega), units, COIN]
      rw [COIN] at hfraction
      rw [Int.bmod_eq_of_le (by omega) (by omega)]
      push_cast
      rfl
    · rw [if_pos (by omega), if_neg (by omega)]
  · have hall : (frac.drop 6).all isspace = false := by
      rw [List.all_eq_false]
      obtain ⟨c, hc⟩ := List.exists_mem_of_length_pos (l := frac.drop 6) (by rw [List.length_drop]; omega)
      exact ⟨c, hc, by simp [not_isspace (hf c (List.mem_of_mem_drop hc))]⟩
    rw [if_pos (.inl (by simp [hall])), if_neg (by omega)]

end

theorem exists_trim (rest : List Char) : ∀ {l : List Char}, (∀ c ∈ l, c.isDigit) → 2 ≤ l.length →
    ∃ l', l = List.replicate (nTrim (l ++ '.' :: rest)) '0' ++ l'
  | [c, c'], _, _ => ⟨[c, c'], by simp [nTrim]⟩
  | c :: c' :: c'' :: l, h, _ => by
    obtain ⟨l', hl'⟩ := exists_trim rest (List.forall_mem_cons.1 h).2 (by simp)
    simp only [List.cons_append, nTrim] at hl' ⊢
    split
    · next hz => exact ⟨l', by rw [List.replicate_succ, List.cons_append, ← hl', hz.1]⟩
    · exact ⟨_, rfl⟩

theorem exists_trimZeros {frac : List Char} (hf : ∀ c ∈ frac, c.isDigit) (hlen : 2 ≤ frac.length) (whole : List Char) :
    ∃ frac' n, frac = frac' ++ List.replicate n '0' ∧ trimZeros (whole ++ '.' :: frac) = whole ++ '.' :: frac' := by
  have hreverse : (whole ++ '.' :: frac).reverse = frac.reverse ++ '.' :: whole.reverse := by simp
  obtain ⟨l, hl⟩ := exists_trim whole.reverse (fun c hc => hf c (List.mem_reverse.1 hc)) (by simpa using hlen)
  simp only [trimZeros, hreverse]
  generalize nTrim (frac.reverse ++ '.' :: whole.reverse) = n at hl ⊢
  obtain rfl : frac = l.reverse ++ List.replicate n '0' := by
    rw [← List.reverse_reverse frac, hl]
    simp
  refine ⟨l.reverse, n, rfl, ?_⟩
  rw [← List.cons_append, ← List.append_assoc, List.length_append, List.length_replicate, Nat.add_sub_cancel,
    List.take_left]

theorem parseMoney_formatMoney {n : Int} (hn : 0 ≤ n) (hmax : n ≤ MAX_MONEY) :
    parseMoney (formatMoney n false) = some n := by
  have hdigits : ∀ m : Nat, ∀ c ∈ Nat.toDigits 10 m, c.isDigit := fun m c hc =>
    Nat.isDigit_of_mem_toDigits (by decide) (by decide) hc
  have hsix : (Nat.toDigits 10 (n.natAbs % COIN.toNat)).length ≤ 6 :=
    (Nat.length_toDigits_le_iff (by decide) (by decide)).2 (Nat.mod_lt _ (by decide))
  have hten : (Nat.toDigits 10 (n.natAbs / COIN.toNat)).length ≤ 10 := by
    have hcoin : COIN.toNat = 1000000 := rfl
    rw [Nat.length_toDigits_le_iff (by decide) (by decide), hcoin]
    simp only [MAX_MONEY, COIN] at hmax
    omega
  have hpadded : ∀ c ∈ List.replicate (6 - (Nat.toDigits 10 (n.natAbs % COIN.toNat)).length) '0' ++
      Nat.toDigits 10 (n.natAbs % COIN.toNat), c.isDigit := by
    intro c hc
    obtain hc | hc := List.mem_append.1 hc
    · rw [List.eq_of_mem_replicate hc]
      rfl
    · exact hdigits _ c hc
  obtain ⟨frac, k, hfrac, hstr⟩ := exists_trimZeros hpadded (by simp; omega) (Nat.toDigits 10 (n.natAbs / COIN.toNat))
  have hlen := congrArg List.length hfrac
  rw [List.length_append, List.length_replicate, Nat.sub_add_cancel hsix, List.length_append, List.length_replicate] at hlen
  have hvalue := congrArg (Nat.ofDigitChars 10 · 0) hfrac
  simp only [Nat.ofDigitChars_append, Nat.ofDigitChars_replicate_zero, Nat.mul_zero, Nat.ofDigitChars_ten_toDigits] at hvalue
  have hformat : formatMoney n false = Nat.toDigits 10 (n.natAbs / COIN.toNat) ++ '.' :: frac := by
    unfold formatMoney
    dsimp only
    rw [if_neg (by omega), if_neg (by simp), hstr]
  rw [hformat, parseMoney_append (hdigits _) (fun c hc => hpadded c (hfrac ▸ List.mem_append_left _ hc))
    Nat.toDigits_ne_nil (.inr rfl), if_pos ⟨hten, by omega⟩, units, Nat.ofDigitChars_ten_toDigits,
    show 6 - frac.length = k by omega, Nat.mul_comm _ (10 ^ k), ← hvalue, Nat.div_add_mod']
  exact congrArg some (Int.natAbs_of_nonneg hn)

/-- Every amount up to the money limit is read back from its text, and decimal texts are read exactly. -/
theorem parseMoney_iff {n : Int} (hn : 0 ≤ n) (hmax : n ≤ MAX_MONEY) {whole frac p : List Char} (hne : whole ≠ [])
    (hw : ∀ c ∈ whole, c.isDigit) (hf : ∀ c ∈ frac, c.isDigit) (hp : p = [] ∧ frac = [] ∨ p = '.' :: frac) :
    parseMoney (formatMoney n false) = some n ∧ parseMoney (whole ++ p) =
      if whole.length ≤ 10 ∧ frac.length ≤ 6 then some (units whole frac : Int) else none :=
  ⟨parseMoney_formatMoney hn hmax, parseMoney_append hw hf hne hp⟩

theorem parseMoney_iff_cents :
    parseMoney (formatMoney 1500000 false) = some 1500000 ∧ parseMoney "1.50".toList = some 1500000 :=
  parseMoney_iff (n := 1500000) (by decide) (by decide) (by decide : ['1'] ≠ []) (by simp)
    (by simp : ∀ c ∈ ['5', '0'], c.isDigit) (.inr rfl)

end Stealth.Money

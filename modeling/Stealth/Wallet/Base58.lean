import Mathlib.Data.List.TakeWhile
import Stealth.ChainParams
import Stealth.Lib.Numeral

/-!
Base 58 text, by way of byte streams of OpenSSL: four bytes of length, and then the sign in the first bit. The
library is a parameter. An `int` that overflows has no value, and what throws has none.
-/

namespace Stealth.Base58

open Numeral

variable {b : Bytes} {s : List Char}

def pszBase58 : List Char := "123456789ABCDEFGHJKLMNPQRSTUVWXYZabcdefghijkmnopqrstuvwxyz".toList

def isspace (c : Char) : Bool := c = ' ' || '\t' ≤ c && c ≤ '\r'

def magnitude (d : Bytes) : Nat := value 256 (d.map UInt8.toNat)

def signed : Bytes → Int
  | [] => 0
  | x :: d => if x < 0x80 then magnitude (x :: d) else -magnitude ((x &&& 0x7f) :: d)

/-- The size of a stream, an `unsigned int`, in four bytes. -/
def header (nSize : Nat) : Bytes := [nSize >>> 24, nSize >>> 16, nSize >>> 8, nSize].map UInt8.ofNat

def addSign (vch : Bytes) : Bytes := if vch.getLast?.any (0x80 ≤ ·) then vch ++ [0] else vch

/-- The bytes of a number that is not negative, with a byte for the sign if the first bit is taken. -/
def toBytes (bn : Nat) : Bytes := addSign ((Nat.digits 256 bn).map UInt8.ofNat)

/-- The functions of the library. A call may fail, for a lack of memory or because a number is too long; the laws
say that a call that does not fail does what its documentation says. -/
structure OpenSSL where
  mpi2bn : Bytes → Int → Option Int
  bn2mpi : Nat → Option Bytes
  mul : Nat → Nat → Option Nat
  add : Nat → Nat → Option Nat
  div : Nat → Nat → Option (Nat × Nat)
  /-- The length of a stream is four more than the size it starts with. -/
  mpi2bn_eq : ∀ {vch len bn}, mpi2bn vch len = some bn →
    len = (magnitude (vch.take 4) + 4 : Nat) ∧ bn = signed ((vch.drop 4).take (magnitude (vch.take 4)))
  /-- The length of the stream is returned as an `int`. -/
  bn2mpi_eq : ∀ {bn vch}, bn2mpi bn = some vch →
    vch = header (toBytes bn).length ++ (toBytes bn).reverse ∧ vch.length < 2 ^ 31
  mul_eq : ∀ {m n r}, mul m n = some r → r = m * n
  add_eq : ∀ {m n r}, add m n = some r → r = m + n
  div_eq : ∀ {m n r}, div m n = some r → r = (m / n, m % n)

namespace OpenSSL

variable (L : OpenSSL)

/-- The result of `BN_mpi2bn` is not looked at: a refused stream leaves the number zero. -/
def setvch (vch : Bytes) : Int :=
  (L.mpi2bn (header vch.length ++ vch.reverse) (Int.bmod (vch.length + 4) (2 ^ 32))).getD 0

def getvch (bn : Nat) : Option Bytes := (L.bn2mpi bn).map fun vch => (vch.drop 4).reverse

def writeDigits (bn : Nat) (str : List Char) : Option (List Char) :=
  if bn = 0 then some str
  else
    match _h : L.div bn 58 with
    | none => none
    | some (dv, rem) => writeDigits dv (str ++ [pszBase58.getD rem '1'])
termination_by bn
decreasing_by
  cases L.div_eq _h
  omega

def encodeBase58 (vch : Bytes) : Option (List Char) := do
  let bn := L.setvch (vch.reverse ++ [0])
  let str ← L.writeDigits bn.toNat []
  some (str ++ List.replicate (vch.takeWhile (· == 0)).length '1').reverse

def readDigits : Nat → List Char → Option Nat
  | bn, [] => some bn
  | bn, c :: p =>
    match pszBase58.idxOf? c with
    | none => if ((c :: p).dropWhile isspace).isEmpty then some bn else none
    | some d => do readDigits (← L.add (← L.mul bn 58) d) p

end OpenSSL

def trimSign (vchTmp : Bytes) : Bytes :=
  match vchTmp.reverse with
  | x :: y :: rest => if x = 0 ∧ 0x80 ≤ y then (y :: rest).reverse else vchTmp
  | _ => vchTmp

def OpenSSL.decodeBase58 (L : OpenSSL) (psz : List Char) : Option Bytes := do
  let psz := psz.dropWhile isspace
  let vchTmp := trimSign (← L.getvch (← L.readDigits 0 psz))
  let nLeadingZeros := (psz.takeWhile (· == '1')).length
  if nLeadingZeros < 2 ^ 31 then some (List.replicate nLeadingZeros 0 ++ vchTmp.reverse) else none

def char (d : Nat) : Char := pszBase58.getD d '1'

theorem idxOf?_char : ∀ d < 58, pszBase58.idxOf? (char d) = some d := by decide +kernel

theorem isspace_char : ∀ d < 58, isspace (char d) = false := by decide +kernel

theorem char_eq_one {d : Nat} (hd : d < 58) : (char d == '1') = (d == 0) := by
  revert d
  decide +kernel

theorem char_of_idxOf? {c : Char} {d : Nat} (h : pszBase58.idxOf? c = some d) : d < 58 ∧ char d = c := by
  obtain ⟨hd, hc, -⟩ := List.idxOf?_eq_some_iff.1 h
  exact ⟨hd, by simpa [char, List.getElem?_eq_getElem hd] using hc⟩

section

variable {l : List Nat} (hl : ∀ d ∈ l, d < 58)
include hl

theorem takeWhile_map : ((l.map char).takeWhile (· == '1')).length = leadingZeros l := by
  induction l with
  | nil => rfl
  | cons d l ih =>
    obtain ⟨hd, hl⟩ := List.forall_mem_cons.1 hl
    have ih := ih hl
    rw [leadingZeros] at ih ⊢
    rw [List.map_cons, List.takeWhile_cons, List.takeWhile_cons, char_eq_one hd]
    cases d == 0 with
    | false => rfl
    | true => exact congrArg (· + 1) ih

theorem dropWhile_map : (l.map char).dropWhile isspace = l.map char := by
  cases l with
  | nil => rfl
  | cons d l => simp [isspace_char d (hl d List.mem_cons_self)]

end

theorem trimSign_toBytes (bn : Nat) : trimSign (toBytes bn) = (Nat.digits 256 bn).map UInt8.ofNat := by
  rw [toBytes]
  obtain hnil | ⟨l, d, hd⟩ := List.eq_nil_or_concat (Nat.digits 256 bn)
  · rw [hnil]
    rfl
  · have hbn : bn ≠ 0 := by
      rintro rfl
      simp at hd
    have hne : UInt8.ofNat d ≠ 0 := by
      have hzero := Nat.getLast_digit_ne_zero 256 hbn
      have hlt := Nat.digits_lt_base (by decide : 1 < 256) (m := bn) (d := d) (by simp [hd])
      simp only [hd, List.concat_eq_append, List.getLast_append_singleton] at hzero
      intro h
      have hmod := congrArg UInt8.toNat h
      simp at hmod
      omega
    simp only [hd, addSign, List.concat_eq_append, List.map_append, List.map_cons, List.map_nil,
      List.getLast?_concat, Option.any_some, decide_eq_true_eq]
    split
    · next htop => simp [trimSign, htop]
    · rw [trimSign]
      cases h : (l.map UInt8.ofNat).reverse <;> simp [h, hne]

theorem map_ofNat_eq_iff {l : List Nat} (hl : ∀ d ∈ l, d < 256) :
    l.map UInt8.ofNat = b ↔ b.map UInt8.toNat = l := by
  constructor
  · rintro rfl
    rw [List.map_map]
    exact (List.map_congr_left fun d hd => UInt8.toNat_ofNat_of_lt (hl d hd)).trans (List.map_id l)
  · rintro rfl
    simp [Function.comp_def]

theorem magnitude_header (n : Nat) : magnitude (header n) = n % 2 ^ 32 := by
  simp only [magnitude, header, value, List.map_cons, List.map_nil, UInt8.toNat_ofNat', List.reverse_cons,
    List.reverse_nil, List.nil_append, List.cons_append, Nat.ofDigits_cons, Nat.ofDigits_nil,
    Nat.shiftRight_eq_div_pow]
  omega

theorem magnitude_eq_zero (h : ∀ x ∈ b, x = 0) : magnitude b = 0 := by
  rw [magnitude, List.eq_replicate_of_mem h, List.map_replicate, value, List.reverse_replicate]
  exact Nat.ofDigits_replicate_zero ..

/-- No spaces before or after the text. -/
def Trimmed (s : List Char) : Prop := ∀ c, c ∈ s.head? ∨ c ∈ s.getLast? → isspace c = false

namespace OpenSSL

variable {L : OpenSSL} {l : List Nat}

/-- The calls on the numbers up to `n` do not fail. -/
structure Computes (L : OpenSSL) (n : Nat) : Prop where
  bn2mpi : ∀ m ≤ n, (L.bn2mpi m).isSome
  mul : ∀ m d, m * 58 + d ≤ n → (L.mul m 58).isSome
  add : ∀ m d, m * 58 + d ≤ n → (L.add (m * 58) d).isSome
  div : ∀ m ≤ n, (L.div m 58).isSome

theorem Computes.mono {m n : Nat} (h : L.Computes n) (hle : m ≤ n) : L.Computes m where
  bn2mpi k hk := h.bn2mpi k (hk.trans hle)
  mul k d hk := h.mul k d (hk.trans hle)
  add k d hk := h.add k d (hk.trans hle)
  div k hk := h.div k (hk.trans hle)

theorem writeDigits_eq (bn : Nat) (str : List Char) :
    (∀ str', L.writeDigits bn str = some str' → str' = str ++ (Nat.digits 58 bn).map char) ∧
      (L.Computes bn → (L.writeDigits bn str).isSome) := by
  fun_induction writeDigits L bn str with
  | case1 str => simp
  | case2 bn str hbn hdiv => exact ⟨nofun, fun h => by simpa [hdiv] using h.div bn (Nat.le_refl _)⟩
  | case3 bn str hbn dv rem hdiv ih =>
    cases L.div_eq hdiv
    refine ⟨fun str' h => ?_, fun h => ih.2 (h.mono (Nat.div_le_self ..))⟩
    rw [ih.1 str' h, Nat.digits_of_two_le_of_pos (by decide) (Nat.pos_of_ne_zero hbn), List.map_cons,
      List.append_assoc]
    rfl

theorem readDigits_map (hl : ∀ d ∈ l, d < 58) (n : Nat) :
    (∀ v, L.readDigits n (l.map char) = some v → v = n * 58 ^ l.length + value 58 l) ∧
      (L.Computes (n * 58 ^ l.length + value 58 l) → (L.readDigits n (l.map char)).isSome) := by
  rw [← foldl_eq]
  induction l generalizing n with
  | nil => exact ⟨fun v h => (Option.some.inj h).symm, fun _ => rfl⟩
  | cons d l ih =>
    obtain ⟨hd, hl⟩ := List.forall_mem_cons.1 hl
    obtain ⟨hvalue, hcomputes⟩ := ih hl (n * 58 + d)
    rw [List.foldl_cons, List.map_cons, readDigits, idxOf?_char d hd]
    constructor
    · intro v h
      obtain ⟨r, hr, h⟩ := Option.bind_eq_some_iff.1 h
      obtain ⟨r', hr', h⟩ := Option.bind_eq_some_iff.1 h
      rw [L.add_eq hr', L.mul_eq hr] at h
      exact hvalue v h
    · intro h
      have hle : n * 58 + d ≤ l.foldl (fun n d => n * 58 + d) (n * 58 + d) := by
        rw [foldl_eq]
        exact Nat.le_add_right_of_le (Nat.le_mul_of_pos_right _ (Nat.pow_pos (by decide)))
      obtain ⟨r, hr⟩ := Option.isSome_iff_exists.1 (h.mul n d hle)
      obtain ⟨r', hr'⟩ := Option.isSome_iff_exists.1 (h.add n d hle)
      cases L.mul_eq hr
      cases L.add_eq hr'
      simpa [hr, hr'] using hcomputes h

theorem getvch_eq {bn : Nat} {vch : Bytes} (h : L.getvch bn = some vch) :
    vch = toBytes bn ∧ (Nat.digits 256 bn).length + 4 < 2 ^ 31 := by
  obtain ⟨stream, hstream, rfl⟩ := Option.map_eq_some_iff.1 h
  obtain ⟨rfl, hlen⟩ := L.bn2mpi_eq hstream
  have hsign : (Nat.digits 256 bn).length ≤ (toBytes bn).length := by
    rw [toBytes, addSign]
    split <;> simp
  simp only [header, List.length_append, List.length_map, List.length_cons, List.length_nil,
    List.length_reverse] at hlen
  exact ⟨List.reverse_reverse _, by omega⟩

/-- The bytes of a text are the numeral of its leading ones and its number. -/
theorem decodeBase58_map (hl : ∀ d ∈ l, d < 58) :
    (∀ b, L.decodeBase58 (l.map char) = some b → leadingZeros l < 2 ^ 31 ∧
      (Nat.digits 256 (value 58 l)).length + 4 < 2 ^ 31 ∧
        b.map UInt8.toNat = numeral 256 (leadingZeros l) (value 58 l)) ∧
      (L.Computes (value 58 l) → leadingZeros l < 2 ^ 31 → (L.decodeBase58 (l.map char)).isSome) := by
  obtain ⟨hvalue, hcomputes⟩ := L.readDigits_map hl 0
  rw [Nat.zero_mul, Nat.zero_add] at hvalue hcomputes
  rw [decodeBase58, dropWhile_map hl, takeWhile_map hl]
  constructor
  · intro b h
    obtain ⟨v, hv, h⟩ := Option.bind_eq_some_iff.1 h
    obtain ⟨vch, hvch, h⟩ := Option.bind_eq_some_iff.1 h
    obtain ⟨rfl, hlen⟩ := getvch_eq hvch
    obtain rfl := hvalue v hv
    rw [Option.ite_none_right_eq_some, trimSign_toBytes] at h
    refine ⟨h.1, hlen, (map_ofNat_eq_iff fun d => lt_of_mem_numeral (by decide)).1 ?_⟩
    rw [numeral, List.map_append, List.map_replicate, List.map_reverse]
    exact Option.some.inj h.2
  · intro h hz
    obtain ⟨v, hv⟩ := Option.isSome_iff_exists.1 (hcomputes h)
    obtain rfl := hvalue v hv
    obtain ⟨vch, hvch⟩ := Option.isSome_iff_exists.1 (h.bn2mpi _ (Nat.le_refl _))
    simpa [hv, getvch, hvch] using hz

theorem encodeBase58_eq (L : OpenSSL) (b : Bytes) :
    let v := (L.setvch (b.reverse ++ [0])).toNat
    (∀ s, L.encodeBase58 b = some s → s = (numeral 58 (leadingZeros (b.map UInt8.toNat)) v).map char) ∧
      (L.Computes v → (L.encodeBase58 b).isSome) := by
  have hzero : (fun d => d == 0) ∘ UInt8.toNat = fun x => x == 0 := by
    funext x
    simp [← UInt8.toNat_inj]
  obtain ⟨hvalue, hcomputes⟩ := L.writeDigits_eq (L.setvch (b.reverse ++ [0])).toNat []
  dsimp only
  rw [encodeBase58, leadingZeros, List.takeWhile_map, List.length_map, hzero, numeral, List.map_append,
    List.map_replicate, List.map_reverse]
  constructor
  · intro s h
    obtain ⟨str, hstr, h⟩ := Option.bind_eq_some_iff.1 h
    rw [← Option.some.inj h, hvalue str hstr, List.nil_append, List.reverse_append, List.reverse_replicate]
    rfl
  · intro h
    obtain ⟨str, hstr⟩ := Option.isSome_iff_exists.1 (hcomputes h)
    simp [hstr]

/-- The length of the stream of `b` is an `int`, and the library takes the stream. -/
def Takes (L : OpenSSL) (b : Bytes) : Prop :=
  b.length + 5 < 2 ^ 31 ∧ (L.mpi2bn (header (b.length + 1) ++ 0 :: b) (b.length + 5)).isSome

theorem setvch_eq (L : OpenSSL) (b : Bytes) : L.setvch (b.reverse ++ [0]) =
    (L.mpi2bn (header (b.length + 1) ++ 0 :: b) (Int.bmod (b.length + 5) (2 ^ 32))).getD 0 := by
  simp [setvch, Int.add_assoc]

theorem setvch_of_takes (h : L.Takes b) : L.setvch (b.reverse ++ [0]) = magnitude b := by
  obtain ⟨hlen, hsome⟩ := h
  obtain ⟨bn, hbn⟩ := Option.isSome_iff_exists.1 hsome
  have hsize : (b.length + 1) % 2 ^ 32 = b.length + 1 := Nat.mod_eq_of_lt (by omega)
  obtain ⟨-, heq⟩ := L.mpi2bn_eq hbn
  have htake : (header (b.length + 1) ++ 0 :: b).take 4 = header (b.length + 1) := rfl
  have hdrop : (header (b.length + 1) ++ 0 :: b).drop 4 = 0 :: b := rfl
  rw [setvch_eq, Int.bmod_eq_of_le (by omega) (by omega), hbn, Option.getD_some, heq, htake, hdrop,
    magnitude_header, hsize, List.take_of_length_le (by simp)]
  exact congrArg Nat.cast (value_zero_cons 256 _)

theorem setvch_of_not_takes (h : ¬ L.Takes b) (hlen : b.length + 1 < 2 ^ 32) :
    L.setvch (b.reverse ++ [0]) = 0 := by
  rw [setvch_eq]
  cases hbn : L.mpi2bn (header (b.length + 1) ++ 0 :: b) (Int.bmod (b.length + 5) (2 ^ 32)) with
  | none => rfl
  | some bn =>
    -- a stream that is taken has the length that it starts with
    have hsize : (b.length + 1) % 2 ^ 32 = b.length + 1 := Nat.mod_eq_of_lt hlen
    have htake : (header (b.length + 1) ++ 0 :: b).take 4 = header (b.length + 1) := rfl
    have heq := (L.mpi2bn_eq hbn).1
    have hlt : Int.bmod (b.length + 5) (2 ^ 32) < 2 ^ 31 := Int.bmod_lt (by decide)
    rw [htake, magnitude_header, hsize] at heq
    refine absurd ⟨by omega, ?_⟩ h
    rw [heq] at hbn
    exact Option.isSome_iff_exists.2 ⟨bn, hbn⟩

theorem exists_map_char {n v : Nat} (hs : ∀ c ∈ s.getLast?, isspace c = false)
    (h : L.readDigits n s = some v) : ∃ l : List Nat, (∀ d ∈ l, d < 58) ∧ s = l.map char := by
  induction s generalizing n with
  | nil => exact ⟨[], nofun, rfl⟩
  | cons c p ih =>
    rw [readDigits] at h
    split at h
    · rw [Option.ite_none_right_eq_some] at h
      -- only spaces are left, and the last one is none
      have hlast := List.getLast_mem (List.cons_ne_nil c p)
      have hspace := List.dropWhile_eq_nil_iff.1 (List.isEmpty_iff.1 h.1) _ hlast
      rw [hs _ (List.getLast?_eq_getLast_of_ne_nil _)] at hspace
      cases hspace
    · next d hd =>
      obtain ⟨hlt, rfl⟩ := char_of_idxOf? hd
      have hp : ∀ c ∈ p.getLast?, isspace c = false := by
        intro c hc
        exact hs c (by cases p with | nil => cases hc | cons => simpa using hc)
      obtain ⟨r, -, h⟩ := Option.bind_eq_some_iff.1 h
      obtain ⟨r', -, h⟩ := Option.bind_eq_some_iff.1 h
      obtain ⟨l, hl, rfl⟩ := ih hp h
      exact ⟨d :: l, List.forall_mem_cons.2 ⟨hlt, hl⟩, rfl⟩

/-- A text is the numeral of what its bytes say. -/
theorem eq_of_decodeBase58 (hs : Trimmed s) (h : L.decodeBase58 s = some b) :
    s = (numeral 58 (leadingZeros (b.map UInt8.toNat)) (magnitude b)).map char := by
  have hdrop : s.dropWhile isspace = s := by
    cases s with
    | nil => rfl
    | cons c p => exact List.dropWhile_cons_of_neg (by simp [hs c (.inl rfl)])
  have hread := h
  rw [decodeBase58, hdrop] at hread
  obtain ⟨v, hv, -⟩ := Option.bind_eq_some_iff.1 hread
  obtain ⟨l, hl, rfl⟩ := exists_map_char (fun c hc => hs c (.inr hc)) hv
  obtain ⟨-, -, hb⟩ := (decodeBase58_map hl).1 b h
  rw [magnitude, hb, leadingZeros_numeral, value_numeral, numeral_eq (by decide) hl]

theorem numeral_magnitude (b : Bytes) :
    numeral 256 (leadingZeros (b.map UInt8.toNat)) (magnitude b) = b.map UInt8.toNat :=
  numeral_eq (by decide) (List.forall_mem_map.2 fun x _ => x.toNat_lt)

theorem takes_of_round_trip (h : (L.encodeBase58 b).bind L.decodeBase58 = some b) :
    leadingZeros (b.map UInt8.toNat) < 2 ^ 31 ∧ (L.Takes b ∨ ∀ x ∈ b, x = 0) := by
  obtain ⟨s, hs, h⟩ := Option.bind_eq_some_iff.1 h
  obtain rfl := (L.encodeBase58_eq b).1 s hs
  obtain ⟨hz, hdigits, hb⟩ := (decodeBase58_map fun d => lt_of_mem_numeral (by decide)).1 b h
  rw [leadingZeros_numeral] at hz
  rw [value_numeral] at hdigits
  rw [leadingZeros_numeral, value_numeral] at hb
  refine ⟨hz, or_iff_not_imp_left.2 fun htakes x hx => ?_⟩
  have hlen := congrArg List.length hb
  rw [List.length_map, length_numeral] at hlen
  rw [setvch_of_not_takes htakes (by omega)] at hb
  have hmem := List.mem_map_of_mem (f := UInt8.toNat) hx
  rw [hb, numeral] at hmem
  simp only [Int.toNat_zero, Nat.digits_zero, List.reverse_nil, List.append_nil] at hmem
  exact UInt8.toNat_inj.1 (List.eq_of_mem_replicate hmem)

theorem round_trip_of_takes (hL : L.Computes (magnitude b)) (hz : leadingZeros (b.map UInt8.toNat) < 2 ^ 31)
    (h : L.Takes b ∨ ∀ x ∈ b, x = 0) : (L.encodeBase58 b).bind L.decodeBase58 = some b := by
  have hset : (L.setvch (b.reverse ++ [0])).toNat = magnitude b := by
    by_cases htakes : L.Takes b
    · rw [setvch_of_takes htakes, Int.toNat_natCast]
    · have hzero := magnitude_eq_zero (h.resolve_left htakes)
      have hlen := congrArg List.length (numeral_magnitude b)
      rw [List.length_map, length_numeral, hzero, Nat.digits_zero, List.length_nil] at hlen
      rw [setvch_of_not_takes htakes (by omega), hzero, Int.toNat_zero]
  obtain ⟨htext, hsome⟩ := L.encodeBase58_eq b
  rw [hset] at htext hsome
  obtain ⟨s, hs⟩ := Option.isSome_iff_exists.1 (hsome hL)
  obtain rfl := htext s hs
  obtain ⟨hbytes, hdecode⟩ := L.decodeBase58_map
    (l := numeral 58 (leadingZeros (b.map UInt8.toNat)) (magnitude b)) fun d => lt_of_mem_numeral (by decide)
  rw [leadingZeros_numeral, value_numeral] at hbytes hdecode
  obtain ⟨b', hb'⟩ := Option.isSome_iff_exists.1 (hdecode hL hz)
  rw [hs, Option.bind_some, hb', Option.some_inj]
  have heq := (hbytes b' hb').2.2
  rw [numeral_magnitude] at heq
  exact List.map_injective_iff.2 (fun x y => UInt8.toNat_inj.1) heq

/-- Where the arithmetic does not fail, bytes survive the round trip unless their stream is refused or the leading
zeros do not fit an `int`. Texts without surrounding spaces are determined by their bytes. -/
theorem decodeBase58_iff {t : List Char} (hs : Trimmed s) (ht : Trimmed t) (b : Bytes) :
    (L.Computes (magnitude b) → ((L.encodeBase58 b).bind L.decodeBase58 = some b ↔
      leadingZeros (b.map UInt8.toNat) < 2 ^ 31 ∧ (L.Takes b ∨ ∀ x ∈ b, x = 0))) ∧
      (L.decodeBase58 s = some b → L.decodeBase58 t = some b → s = t) :=
  ⟨fun hL => ⟨takes_of_round_trip, fun h => round_trip_of_takes hL h.1 h.2⟩,
    fun h h' => (eq_of_decodeBase58 hs h).trans (eq_of_decodeBase58 ht h').symm⟩

/-- A library without limits of its own. -/
def unlimited : OpenSSL where
  mpi2bn vch len :=
    let nSize := magnitude (vch.take 4)
    if len = (nSize + 4 : Nat) then some (signed ((vch.drop 4).take nSize)) else none
  bn2mpi bn :=
    let vch := header (toBytes bn).length ++ (toBytes bn).reverse
    if vch.length < 2 ^ 31 then some vch else none
  mul m n := some (m * n)
  add m n := some (m + n)
  div m n := some (m / n, m % n)
  mpi2bn_eq h := by
    rw [Option.ite_none_right_eq_some] at h
    exact ⟨h.1, (Option.some.inj h.2).symm⟩
  bn2mpi_eq h := by
    rw [Option.ite_none_right_eq_some] at h
    obtain ⟨hlen, h⟩ := h
    cases h
    exact ⟨rfl, hlen⟩
  mul_eq h := (Option.some.inj h).symm
  add_eq h := (Option.some.inj h).symm
  div_eq h := (Option.some.inj h).symm

theorem decodeBase58_iff_signByte : Trimmed "1Z".toList ∧ unlimited.Computes 128 ∧
    (unlimited.encodeBase58 [0, 0x80]).bind unlimited.decodeBase58 = some [0, 0x80] := by
  have htext : Trimmed "1Z".toList := by
    rintro c (h | h) <;> cases h <;> decide
  have hcomputes : unlimited.Computes 128 :=
    ⟨by decide +kernel, fun _ _ _ => rfl, fun _ _ _ => rfl, fun _ _ => rfl⟩
  refine ⟨htext, hcomputes, ((decodeBase58_iff htext htext [0, 0x80]).1 hcomputes).2 ?_⟩
  exact ⟨by decide, .inl ⟨by decide, by decide +kernel⟩⟩

/-- Every library refuses the stream of 2^31 bytes, and the text comes out empty. -/
theorem decodeBase58_encodeBase58_long : ¬ ∃ L : OpenSSL,
    (L.encodeBase58 (List.replicate (2 ^ 31) 1)).bind L.decodeBase58 = some (List.replicate (2 ^ 31) 1) := by
  rintro ⟨L, h⟩
  obtain htakes | hzero := (takes_of_round_trip h).2
  · have hlen := htakes.1
    rw [List.length_replicate] at hlen
    omega
  · have hmem : (1 : UInt8) ∈ List.replicate (2 ^ 31) 1 := List.mem_replicate.2 ⟨by decide, rfl⟩
    cases hzero 1 hmem

end OpenSSL

end Stealth.Base58

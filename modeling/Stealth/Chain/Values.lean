import Stealth.Chain.Spends

/-! The values of checked transactions. `CheckTransaction` asks for the money range of the sums only. -/

namespace Stealth

def addValueOut (nValueOut : Int) (txout : CTxOut) : Option Int :=
  let nSum := nValueOut + txout.nValue.toInt
  if !moneyRange txout.nValue.toInt || !moneyRange nSum then none else some nSum

def CTransaction.getValueOutOrThrow (tx : CTransaction) : Option Int := tx.vout.foldlM addValueOut 0

theorem moneyRange_iff {n : Int} : moneyRange n = true ↔ 0 ≤ n ∧ n ≤ MAX_MONEY := by
  rw [moneyRange, Bool.and_eq_true_iff, decide_eq_true_iff, decide_eq_true_iff]

theorem addValueOut_eq_some {n m : Int} {o : CTxOut} : addValueOut n o = some m ↔
    moneyRange o.nValue.toInt = true ∧ moneyRange m = true ∧ m = n + o.nValue.toInt := by
  rw [addValueOut]
  split
  · next hout =>
    rw [Bool.or_eq_true, Bool.not_eq_true', Bool.not_eq_true'] at hout
    constructor
    · intro h
      cases h
    · rintro ⟨hvalue, hsum, rfl⟩
      rw [hvalue, hsum] at hout
      exact absurd hout (by decide)
  · next hin =>
    rw [Bool.or_eq_true, not_or, Bool.not_eq_true', Bool.not_eq_true', Bool.not_eq_false,
      Bool.not_eq_false] at hin
    rw [Option.some_inj]
    constructor
    · rintro rfl
      exact ⟨hin.1, hin.2, rfl⟩
    · rintro ⟨-, -, rfl⟩
      rfl

/-- From `XST_FORKPURCHASE` on, the script of the output is a claim or of no known type. -/
def Unlimited (fTestNet : Bool) (nNewHeight : Int) (txout : CTxOut) : Prop :=
  Fork.purchase ≤ getFork fTestNet nNewHeight ∧
    ∀ t vSolutions, solver txout.scriptPubKey = some (t, vSolutions) → t = .claim ∨ t = .nonstandard

theorem getMinOutputAmount_nonneg (fTestNet : Bool) (nHeight : Int) :
    0 ≤ getMinOutputAmount fTestNet nHeight := by
  rw [getMinOutputAmount]
  split_ifs <;> decide

variable {fTestNet : Bool} {nNewHeight : Int}

theorem nonneg_of_not_tooSmall {txout : CTxOut}
    (h : outputIsTooSmall fTestNet nNewHeight txout = false) (hlimit : ¬ Unlimited fTestNet nNewHeight txout) :
    0 ≤ txout.nValue.toInt := by
  have hmin := getMinOutputAmount_nonneg fTestNet nNewHeight
  rw [outputIsTooSmall] at h
  split at h
  · rw [Bool.and_eq_false_iff, Bool.not_eq_false', decide_eq_false_iff_not] at h
    rcases h with hempty | hvalue
    · rw [CTxOut.isEmpty, Bool.and_eq_true_iff, beq_iff_eq] at hempty
      rw [hempty.1]
      decide
    · omega
  · split at h
    · rw [decide_eq_false_iff_not] at h
      omega
    · next hfork =>
      refine Int.not_lt.1 fun hneg => hlimit ⟨Fork.not_lt.1 hfork, fun t vSolutions hsolver => ?_⟩
      rw [hsolver] at h
      cases t <;> simp at h ⊢ <;> omega

theorem checkOutput_eq_some {tx : CTransaction} {n m : Int} {o : CTxOut}
    (h : checkOutput fTestNet nNewHeight tx n o = some m) :
    outputIsTooSmall fTestNet nNewHeight o = false ∧ o.nValue.toInt ≤ MAX_MONEY ∧ moneyRange m = true ∧
      m = n + o.nValue.toInt := by
  rw [checkOutput] at h
  split at h
  · cases h
  split at h
  · cases h
  next hsmall =>
  split at h
  · cases h
  next hmax =>
  split at h
  · cases h
  next hrange =>
  cases h
  exact ⟨Bool.eq_false_of_not_eq_true hsmall, Int.not_lt.1 hmax, by simpa using hrange, rfl⟩

section Loop
variable {tx : CTransaction}

/-- The loops of `CheckTransaction` and `GetValueOut` have the same sums. They differ in that only the second
refuses a negative value. -/
theorem foldlM_addValueOut_iff : ∀ {vout : List CTxOut} {n m : Int},
    vout.foldlM (checkOutput fTestNet nNewHeight tx) n = some m →
      (vout.foldlM addValueOut n = some m ↔ ∀ o ∈ vout, 0 ≤ o.nValue.toInt)
  | [], _, _, h => by
    cases h
    simp
  | o :: vout, n, m, h => by
    obtain ⟨k, hk, hrest⟩ := OptionFold.foldlM_cons_eq_some.1 h
    obtain ⟨-, hmax, hrange, rfl⟩ := checkOutput_eq_some hk
    have ih := foldlM_addValueOut_iff hrest
    rw [OptionFold.foldlM_cons_eq_some, List.forall_mem_cons]
    constructor
    · rintro ⟨k, hadd, hloop⟩
      obtain ⟨hvalue, -, rfl⟩ := addValueOut_eq_some.1 hadd
      exact ⟨(moneyRange_iff.1 hvalue).1, ih.1 hloop⟩
    · rintro ⟨hvalue, hvalues⟩
      refine ⟨_, addValueOut_eq_some.2 ⟨?_, hrange, rfl⟩, ih.2 hvalues⟩
      exact moneyRange_iff.2 ⟨hvalue, hmax⟩

theorem of_foldlM_checkOutput : ∀ {vout : List CTxOut} {n m : Int},
    vout.foldlM (checkOutput fTestNet nNewHeight tx) n = some m →
      m = n + (vout.map fun o => o.nValue.toInt).sum ∧ (vout ≠ [] → moneyRange m = true) ∧
      ∀ o ∈ vout, outputIsTooSmall fTestNet nNewHeight o = false ∧ o.nValue.toInt ≤ MAX_MONEY
  | [], _, _, h => by
    cases h
    simp
  | o :: vout, n, m, h => by
    obtain ⟨k, hk, hrest⟩ := OptionFold.foldlM_cons_eq_some.1 h
    obtain ⟨hsmall, hmax, hrange, rfl⟩ := checkOutput_eq_some hk
    obtain ⟨rfl, hend, hseen⟩ := of_foldlM_checkOutput hrest
    refine ⟨by rw [List.map_cons, List.sum_cons, Int.add_assoc], fun _ => ?_,
      List.forall_mem_cons.2 ⟨⟨hsmall, hmax⟩, hseen⟩⟩
    cases vout with
    | nil => simpa using hrange
    | cons o' vout => exact hend (List.cons_ne_nil o' vout)

end Loop

/-- The sum of the outputs of a checked transaction is in the money range. Every output is, and `GetValueOut`
returns the sum, exactly if no output without a lower limit is negative. -/
theorem getValueOut_checked_iff {tx : CTransaction} (h : checkTransaction fTestNet nNewHeight tx = true) :
    moneyRange tx.getValueOut = true ∧
      ((∀ o ∈ tx.vout, moneyRange o.nValue.toInt = true) ∧ tx.getValueOutOrThrow = some tx.getValueOut ↔
        ∀ o ∈ tx.vout, Unlimited fTestNet nNewHeight o → 0 ≤ o.nValue.toInt) := by
  simp only [checkTransaction, Bool.and_eq_true, Bool.not_eq_true', List.isEmpty_eq_false_iff] at h
  obtain ⟨⟨⟨⟨⟨-, hvout⟩, -⟩, hloop⟩, -⟩, -⟩ := h
  obtain ⟨m, hm⟩ := Option.isSome_iff_exists.1 hloop
  obtain ⟨hsum, hrange, hseen⟩ := of_foldlM_checkOutput hm
  rw [Int.zero_add] at hsum
  subst hsum
  refine ⟨hrange hvout, fun hvalues o ho _ => (moneyRange_iff.1 (hvalues.1 o ho)).1, fun hlimit => ?_⟩
  have hnonneg : ∀ o ∈ tx.vout, 0 ≤ o.nValue.toInt := by
    intro o ho
    by_cases hunlimited : Unlimited fTestNet nNewHeight o
    · exact hlimit o ho hunlimited
    · exact nonneg_of_not_tooSmall (hseen o ho).1 hunlimited
  exact ⟨fun o ho => moneyRange_iff.2 ⟨hnonneg o ho, (hseen o ho).2⟩, (foldlM_addValueOut_iff hm).2 hnonneg⟩

def bareTx (nValue : Int64) : CTransaction where
  nVersion := 1
  nTime := 0
  vin := [⟨⟨7, 0⟩, [], 0⟩]
  vout := [⟨2000000, payScript⟩, ⟨nValue, []⟩]
  nLockTime := 0

theorem getValueOut_checked_bareTx : checkTransaction false 5000000 (bareTx 1) = true ∧
      (bareTx 1).getValueOutOrThrow = some (bareTx 1).getValueOut := by
  have hchecked : checkTransaction false 5000000 (bareTx 1) = true := by decide +kernel
  have hnonneg : ∀ o ∈ (bareTx 1).vout, 0 ≤ o.nValue.toInt := by decide
  exact ⟨hchecked, ((getValueOut_checked_iff hchecked).2.2 fun o ho _ => hnonneg o ho).2⟩

/-- An output of minus one coin passes the check if another one makes up for it. -/
theorem negative_output_checked : checkTransaction false 5000000 (bareTx (-1000000)) = true ∧
      (∃ o ∈ (bareTx (-1000000)).vout, moneyRange o.nValue.toInt = false) ∧
      (bareTx (-1000000)).getValueOutOrThrow = none := by
  decide +kernel

end Stealth

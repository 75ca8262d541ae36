import Stealth.Script.Signatory

/-! Scripts that `Solver` recognises by their first two instructions. -/

namespace Stealth

open CScript

variable {n : Nat} {tplate : CScript} {vSolutions : List Bytes}

/-- The opcode that `operator<<` takes for a short byte vector. -/
def pushOpcode (b : Bytes) : UInt8 := if b.length < 76 then UInt8.ofNat b.length else opPushdata1

theorem getOp_pushed {b rest : Bytes} (hb : b.length ≤ 255) (hlen : (b ++ rest).length < 2 ^ 32) :
    getOp (push [] b ++ rest) = some (pushOpcode b, b, rest) := by
  rw [getOp_push_of_lt hlen, pushCode, if_pos hb]
  rfl

theorem getOp_op {opcode : UInt8} (hop : opPushdata4 < opcode) (rest : Bytes) :
    getOp (opcode :: rest) = some (opcode, [], rest) := by
  rw [getOp, getOp2, if_neg fun h => UInt8.not_le.2 hop h.1]

/-- Whether a template can match a script that starts with a push and an instruction. -/
def canStart (opcode1 opcode2 : UInt8) : CScript → Bool
  | a :: b :: _ =>
    a == opPubKeys || (a == opcode1 || a == opPubKey || a == opPubKeyHash || a == opSmallData) &&
      (b == opPubKeys || b == opcode2 || b == opSmallData)
  | a :: [] => a == opPubKeys
  | [] => false

section Start

variable {script rest next data : Bytes} {opcode1 opcode2 a b : UInt8} {found : List Bytes}

theorem first_of_matchOp (h0 : opcode1 ≠ 0) (hle : opcode1 ≤ opPushdata4)
    (h : matchOp opcode1 a data = some found) :
    a = opcode1 ∨ a = opPubKey ∨ a = opPubKeyHash ∨ a = opSmallData := by
  have hint : ¬(opcode1 = 0 ∨ 0x51 ≤ opcode1 ∧ opcode1 ≤ op16) := by
    rintro (hzero | ⟨hsmall, -⟩)
    · exact h0 hzero
    · exact absurd (UInt8.le_trans hsmall hle) (by decide)
  rw [matchOp, if_neg hint] at h
  split_ifs at h
  all_goals tauto

theorem second_of_matchOp (hop : op16 < opcode2) (h : matchOp opcode2 b [] = some found) :
    b = opcode2 ∨ b = opSmallData := by
  have hint : ¬(opcode2 = 0 ∨ 0x51 ≤ opcode2 ∧ opcode2 ≤ op16) := by
    rintro (rfl | ⟨-, hsmall⟩)
    · exact absurd hop (by decide)
    · exact UInt8.not_le.2 hop hsmall
  rw [matchOp, if_neg hint] at h
  split_ifs at h
  all_goals tauto

theorem canStart_of_match (hget : getOp script = some (opcode1, data, rest)) (h0 : opcode1 ≠ 0)
    (hle : opcode1 ≤ opPushdata4) (hnext : getOp rest = some (opcode2, [], next))
    (hop : op16 < opcode2) (h : matchTemplate n script tplate = some vSolutions) :
    canStart opcode1 opcode2 tplate = true := by
  cases tplate with
  | nil =>
    obtain ⟨rfl, -⟩ := matchTemplate_nil h
    cases hget
  | cons a tplate =>
    by_cases hkeys : a = opPubKeys
    · cases tplate <;> simp [canStart, hkeys]
    obtain ⟨n₁, o₁, vch₁, pc₁, found₁, v₁, hget₁, hfound₁, hrest, -⟩ := matchTemplate_cons hkeys h
    rw [hget] at hget₁
    cases hget₁
    have hfirst := first_of_matchOp h0 hle hfound₁
    cases tplate with
    | nil =>
      obtain ⟨rfl, -⟩ := matchTemplate_nil hrest
      cases hnext
    | cons b tplate =>
      by_cases hkeys' : b = opPubKeys
      · simp only [canStart, Bool.or_eq_true, Bool.and_eq_true, beq_iff_eq]
        tauto
      obtain ⟨n₂, o₂, vch₂, pc₂, found₂, v₂, hget₂, hfound₂, -, -⟩ := matchTemplate_cons hkeys' hrest
      rw [hnext] at hget₂
      cases hget₂
      have hsecond := second_of_matchOp hop hfound₂
      simp only [canStart, Bool.or_eq_true, Bool.and_eq_true, beq_iff_eq]
      tauto

theorem findTemplate_eq_of_unique {t : TxnOutType}
    (hmatch : matchTemplate script.length script tplate = some vSolutions) :
    ∀ {ts : List (TxnOutType × CScript)}, (t, tplate) ∈ ts →
      (∀ entry ∈ ts, (matchTemplate script.length script entry.2).isSome → entry = (t, tplate)) →
      findTemplate script ts = some (t, vSolutions)
  | [], hmem, _ => by cases hmem
  | (t', tplate') :: ts, hmem, honly => by
    rw [findTemplate]
    cases hfirst : matchTemplate script.length script tplate' with
    | some v' =>
      have heq := honly _ List.mem_cons_self (by rw [hfirst]; rfl)
      cases heq
      rw [hmatch] at hfirst
      cases hfirst
      rfl
    | none =>
      refine findTemplate_eq_of_unique hmatch ?_ fun entry hentry =>
        honly entry (List.mem_cons_of_mem _ hentry)
      obtain heq | hmem := List.mem_cons.1 hmem
      · cases heq
        rw [hmatch] at hfirst
        cases hfirst
      · exact hmem

/-- The templates of registry operations are told apart by their second instruction. -/
theorem unique_start {entry entry' : TxnOutType × CScript} (hentry : entry ∈ mTemplates)
    (hentry' : entry' ∈ mTemplates) (hop : opPurchase1 ≤ entry.2.getD 1 0 ∧ entry.2.getD 1 0 ≤ opFeework)
    (hstart : canStart (entry.2.getD 0 0) (entry.2.getD 1 0) entry'.2 = true) : entry' = entry := by
  have hall : ∀ entry ∈ mTemplates, opPurchase1 ≤ entry.2.getD 1 0 ∧ entry.2.getD 1 0 ≤ opFeework →
      ∀ entry' ∈ mTemplates, canStart (entry.2.getD 0 0) (entry.2.getD 1 0) entry'.2 = true →
      entry' = entry := by decide
  exact hall entry hentry hop entry' hentry' hstart

theorem solver_of_match {t : TxnOutType} (hmem : (t, opcode1 :: opcode2 :: tplate) ∈ mTemplates)
    (hop : opPurchase1 ≤ opcode2 ∧ opcode2 ≤ opFeework) (h0 : opcode1 ≠ 0)
    (hle : opcode1 ≤ opPushdata4) (hget : getOp script = some (opcode1, data, opcode2 :: next))
    (hmatch : matchTemplate script.length script (opcode1 :: opcode2 :: tplate) = some vSolutions)
    (hstandard : txTypeIsStandard t vSolutions = true) : solver script = some (t, vSolutions) := by
  have hop16 : op16 < opcode2 := UInt8.lt_of_lt_of_le (by decide) hop.1
  have hnext : getOp (opcode2 :: next) = some (opcode2, [], next) :=
    getOp_op (UInt8.lt_of_lt_of_le (by decide) hop.1) next
  have hscript : isPayToScriptHash script = false := by
    obtain ⟨tail, rfl⟩ := (getOp_eq_some hget).1
    have hne : opcode1 ≠ opHash160 := by
      rintro rfl
      exact absurd hle (by decide)
    simp [isPayToScriptHash, hne]
  have hfind : findTemplate script mTemplates = some (t, vSolutions) := by
    refine findTemplate_eq_of_unique hmatch hmem fun entry hentry hsome => ?_
    obtain ⟨v, hv⟩ := Option.isSome_iff_exists.1 hsome
    exact unique_start hmem hentry hop (canStart_of_match hget h0 hle hnext hop16 hv)
  rw [solver, hscript, hfind]
  simp [hstandard]

end Start

section Scripts

variable {pc next vch data hash : Bytes} {opcode opcode1 opcode2 : UInt8} {found : List Bytes}
  {tplate : CScript} {t : TxnOutType}

theorem matchTemplate_step (hkeys : opcode2 ≠ opPubKeys)
    (hget : getOp pc = some (opcode1, vch, next)) (hfound : matchOp opcode1 opcode2 vch = some found) :
    matchTemplate (n + 1) pc (opcode2 :: tplate) = (matchTemplate n next tplate).map (found ++ ·) := by
  rw [matchTemplate, hget]
  simp only [Option.bind_some, if_neg hkeys, hfound]

theorem matchOp_push_self (hop : opcode ≤ opPushdata4) : matchOp opcode opcode vch = some [vch] := by
  rw [matchOp_of_lt (UInt8.lt_of_le_of_lt hop (by decide)), if_neg, if_pos hop]
  rintro (hself | ⟨hgt, -⟩)
  · exact hself rfl
  · exact UInt8.not_le.2 hgt hop

theorem matchOp_op_self (hop : opPushdata4 < opcode) (hlt : opcode < opSmallData) :
    matchOp opcode opcode [] = some [] := by
  rw [matchOp_of_lt hlt, if_neg (by simp), if_neg (UInt8.not_le.2 hop)]

theorem matchOp_keyHash (hlen : hash.length = 20) : matchOp opcode opPubKeyHash hash = some [hash] := by
  rw [matchOp, if_neg (by decide), if_pos rfl, if_neg (not_not.2 hlen)]

theorem pushOpcode_le (data : Bytes) : pushOpcode data ≤ opPushdata4 := by
  rw [pushOpcode]
  split
  · next hlt =>
    rw [UInt8.le_iff_toNat_le, UInt8.toNat_ofNat', Nat.mod_eq_of_lt (by omega)]
    exact Nat.le_of_lt (Nat.lt_of_lt_of_le hlt (by decide))
  · decide

theorem pushOpcode_ne_zero (hpos : 0 < data.length) : pushOpcode data ≠ 0 := by
  rw [pushOpcode]
  split
  · next hlt =>
    intro hzero
    have hnat := congrArg UInt8.toNat hzero
    rw [UInt8.toNat_ofNat', Nat.mod_eq_of_lt (by omega)] at hnat
    exact Nat.ne_of_gt hpos hnat
  · decide

theorem pushOpcode_ne_pubKeys (data : Bytes) : pushOpcode data ≠ opPubKeys := by
  intro heq
  have hle := pushOpcode_le data
  rw [heq] at hle
  exact absurd hle (by decide)

theorem matchTemplate_op (hlow : opPushdata4 < opcode) (hhigh : opcode < opSmallData) (next : Bytes) :
    matchTemplate (n + 1) (opcode :: next) (opcode :: tplate) = matchTemplate n next tplate := by
  have hkeys : opcode ≠ opPubKeys := by
    rintro rfl
    exact absurd hhigh (by decide)
  rw [matchTemplate_step hkeys (getOp_op hlow next) (matchOp_op_self hlow hhigh)]
  exact congrFun Option.map_id _

theorem solver_operation (hpos : 0 < data.length) (hlen : data.length ≤ 255)
    (hmem : (t, [pushOpcode data, opcode]) ∈ mTemplates)
    (hop : opPurchase1 ≤ opcode ∧ opcode ≤ opFeework) (hstandard : txTypeIsStandard t [data] = true) :
    solver (push [] data ++ [opcode]) = some (t, [data]) := by
  have hle := pushOpcode_le data
  have hlow : opPushdata4 < opcode := UInt8.lt_of_lt_of_le (by decide) hop.1
  have hhigh : opcode < opSmallData := UInt8.lt_of_le_of_lt hop.2 (by decide)
  have hget : getOp (push [] data ++ [opcode]) = some (pushOpcode data, data, [opcode]) :=
    getOp_pushed hlen (by rw [List.length_append, List.length_singleton]; omega)
  refine solver_of_match hmem hop (pushOpcode_ne_zero hpos) hle hget ?_ hstandard
  obtain ⟨n, hn⟩ := Nat.exists_eq_add_of_le (length_lt_of_getOp hget)
  rw [hn, show ([opcode] : Bytes).length.succ + n = n + 1 + 1 by simp; omega,
    matchTemplate_step (pushOpcode_ne_pubKeys data) hget (matchOp_push_self hle),
    matchTemplate_op hlow hhigh]
  cases n <;> rfl

theorem solver_claim (hdata : data.length = 41) (hhash : hash.length = 20) :
    solver (push [] data ++ [opClaim, opDup, opHash160] ++ push [] hash ++ [opEqualVerify, opCheckSig]) =
      some (.claim, [data, hash]) := by
  have hopcode : pushOpcode data = 0x29 := by
    rw [pushOpcode, hdata]
    rfl
  rw [List.append_assoc, List.append_assoc]
  have hget := @getOp_pushed data
    ([opClaim, opDup, opHash160] ++ (push [] hash ++ [opEqualVerify, opCheckSig])) (by omega)
    (by simp [push, hhash, hdata, opPushdata1])
  have hgetHash := @getOp_pushed hash [opEqualVerify, opCheckSig] (by omega) (by simp [hhash])
  have hlength : (push [] data ++ ([opClaim, opDup, opHash160] ++
      (push [] hash ++ [opEqualVerify, opCheckSig]))).length = 68 := by
    simp [push, hhash, hdata, opPushdata1]
  rw [hopcode] at hget
  refine solver_of_match (show (.claim, 0x29 :: opClaim :: pubKeyHashTemplate) ∈ mTemplates by decide)
    (by decide) (by decide) (by decide) hget ?_ (by simp [txTypeIsStandard, hdata])
  rw [hlength, pubKeyHashTemplate, matchTemplate_step (by decide) hget (matchOp_push_self (by decide)),
    List.cons_append, matchTemplate_op (by decide) (by decide), List.cons_append,
    matchTemplate_op (by decide) (by decide), List.cons_append,
    matchTemplate_op (by decide) (by decide), List.nil_append,
    matchTemplate_step (by decide) hgetHash (matchOp_keyHash hhash),
    matchTemplate_op (by decide) (by decide), matchTemplate_op (by decide) (by decide)]
  rfl

end Scripts

end Stealth

import Stealth.Script.Signatory

/-! Which outputs of registry operations can be spent: claims, which run like outputs to a key hash. -/

namespace Stealth

open CScript

variable {scriptPubKey : CScript} {t : TxnOutType} {vSolutions : List Bytes}

theorem length_take_of_getOp {pc vch rest : Bytes} {opcode : UInt8}
    (h : getOp pc = some (opcode, vch, rest)) : pc.length ≤ vch.length + rest.length + 5 := by
  obtain ⟨-, -, k, hk, hlen⟩ := getOp_eq_some h
  omega

theorem ofByte_push {opcode : UInt8} (h : opcode ≤ opPushdata4) : Opcode.ofByte opcode ≠ .disabled := by
  have hall : ∀ n < 79, Opcode.ofByte (UInt8.ofNat n) ≠ .disabled := by decide
  have hlt : opcode.toNat < 79 := Nat.lt_succ_of_le (UInt8.le_iff_toNat_le.1 h)
  have hbyte := hall opcode.toNat hlt
  rwa [UInt8.ofNat_toNat] at hbyte

/-- The rest of a run after an instruction, with the limit on the stacks. -/
def resume (ctx : EvalContext) (pc : Bytes) (st : ScriptState) : Option ScriptState :=
  if st.stack.length + st.altstack.length > 1000 then none else evalLoop ctx pc.length pc st

def counted (opcode : UInt8) (st : ScriptState) : ScriptState :=
  { st with nOpCount := if opcode > op16 then st.nOpCount + 1 else st.nOpCount }

section Rounds

variable {ctx : EvalContext} {n : Nat} {pc vch next : Bytes} {opcode : UInt8} {st : ScriptState}
  {tplate : CScript} {vSolutions : List Bytes}

theorem evalLoop_getOp (hget : getOp pc = some (opcode, vch, next))
    (hvch : vch.length ≤ MAX_SCRIPT_ELEMENT_SIZE) (hop : Opcode.ofByte opcode ≠ .disabled)
    (hcount : st.nOpCount < 201) : evalLoop ctx pc.length pc st =
      (execInstruction ctx opcode vch next (counted opcode st)).bind (resume ctx next) := by
  cases pc with
  | nil => cases hget
  | cons b pc =>
    have hlt := length_lt_of_getOp hget
    have hlimit : ¬(vch.length > MAX_SCRIPT_ELEMENT_SIZE ∨
        opcode > op16 ∧ (counted opcode st).nOpCount > 201 ∨ Opcode.ofByte opcode = .disabled) := by
      rintro (hlong | ⟨hop16, hmany⟩ | hdisabled)
      · omega
      · rw [counted, if_pos hop16] at hmany
        dsimp only at hmany
        omega
      · exact hop hdisabled
    rw [List.length_cons] at hlt ⊢
    simp only [counted] at hlimit ⊢
    simp only [evalLoop, evalStep, hget, if_neg hlimit]
    cases execInstruction ctx opcode vch next _ with
    | none => rfl
    | some st₁ =>
      simp only [resume, Option.bind_some]
      by_cases hfull : st₁.stack.length + st₁.altstack.length > 1000
      · rw [if_pos hfull, if_pos hfull]
      · rw [if_neg hfull, if_neg hfull]
        exact evalLoop_fuel ctx _ _ _ _ (by omega) (Nat.le_refl _)

theorem resume_of_le (h : st.stack.length + st.altstack.length ≤ 1000) :
    resume ctx pc st = evalLoop ctx pc.length pc st :=
  if_neg (Nat.not_lt.2 h)

theorem evalLoop_op (hop16 : op16 < opcode) (hlt : opcode < opSmallData)
    (hop : Opcode.ofByte opcode ≠ .disabled)
    (hmatch : matchTemplate n pc (opcode :: tplate) = some vSolutions) :
    ∃ n' next, matchTemplate n' next tplate = some vSolutions ∧ pc.length ≤ next.length + 5 ∧
      ∀ ctx stack nOpCount code, nOpCount < 201 →
        evalLoop ctx pc.length pc ⟨stack, [], [], nOpCount, code⟩ =
          (execOp ctx true next (Opcode.ofByte opcode) ⟨stack, [], [], nOpCount + 1, code⟩).bind
            (resume ctx next) := by
  have hpush : opPushdata4 < opcode := UInt8.lt_trans (by decide) hop16
  obtain ⟨n', vch, next, hget, hrest⟩ := matchTemplate_cons_op ⟨hpush, hlt⟩ hmatch
  obtain rfl : vch = [] := by
    by_contra hvch
    exact UInt8.not_le.2 hpush (le_opPushdata4_of_getOp hget hvch)
  have hlen := length_take_of_getOp hget
  rw [List.length_nil, Nat.zero_add] at hlen
  refine ⟨n', next, hrest, hlen, fun ctx stack nOpCount code hcount => ?_⟩
  rw [evalLoop_getOp hget (Nat.zero_le _) hop hcount, counted, if_pos hop16]
  rw [execInstruction_op rfl (UInt8.not_le.2 hpush)]

theorem evalLoop_template_push (hop : opcode ≤ opPushdata4 ∨ opcode = opPubKeyHash)
    (hmatch : matchTemplate n pc (opcode :: tplate) = some vSolutions) :
    ∃ n' next vch rest, vSolutions = vch :: rest ∧ matchTemplate n' next tplate = some rest ∧
      pc.length ≤ vch.length + next.length + 5 ∧ (opcode = opPubKeyHash → vch.length = 20) ∧
      (vch.length ≤ MAX_SCRIPT_ELEMENT_SIZE → ∀ ctx stack nOpCount code, nOpCount < 201 →
        evalLoop ctx pc.length pc ⟨stack, [], [], nOpCount, code⟩ =
          resume ctx next ⟨vch :: stack, [], [], nOpCount, code⟩) := by
  obtain ⟨n', opcode1, vch, next, rest, hget, hpush, rfl, hrest, hlen⟩ := matchTemplate_cons_push hop hmatch
  refine ⟨n', next, vch, rest, rfl, hrest, length_take_of_getOp hget, hlen, ?_⟩
  intro hvch ctx stack nOpCount code hcount
  have hop16 : ¬opcode1 > op16 := UInt8.not_lt.2 (UInt8.le_trans hpush (by decide))
  rw [evalLoop_getOp hget hvch (ofByte_push hpush) hcount, counted, if_neg hop16,
    execInstruction_push rfl hpush]
  rfl

end Rounds

theorem txTypeIsStandard_of_solver (h : solver scriptPubKey = some (t, vSolutions)) (ht : t ≠ .scripthash) :
    txTypeIsStandard t vSolutions = true := by
  rw [solver] at h
  split at h
  · cases h
    exact absurd rfl ht
  · split at h
    · cases h
    · split at h
      · next hstandard =>
        cases h
        exact hstandard
      · cases h

/-- What a claim output does with a stack: it checks a signature for a key with the hash. -/
def claimRun (ctx : EvalContext) (scriptPubKey : CScript) (hash : Bytes) : List Bytes → Option (List Bytes)
  | [key, sig] =>
    if ctx.crypto.hash160 key = hash then
      (ctx.check (findAndDelete (push [] sig) scriptPubKey) sig key).map fun f => [vchBool f]
    else none
  | _ => none

theorem claimRun_of_length_ne {ctx : EvalContext} {hash : Bytes}
    {stack : List Bytes} (h : stack.length ≠ 2) : claimRun ctx scriptPubKey hash stack = none := by
  rw [claimRun]
  rintro key sig rfl
  exact h rfl

section KeyHash

variable {ctx : EvalContext} {n nOpCount : Nat} {pc x1 x2 key sig : Bytes} {s vSolutions : List Bytes}
  {code : CScript}

theorem execOp_equalVerify_eq :
    execOp ctx true pc (Opcode.ofByte opEqualVerify) ⟨x2 :: x1 :: s, [], [], nOpCount, code⟩ =
      if x1 = x2 then some ⟨s, [], [], nOpCount, code⟩ else none := by
  change (stackOp (.equal true) (x2 :: x1 :: s)).map _ = _
  rw [stackOp, pushResult, if_pos rfl]
  by_cases h : x1 = x2
  · rw [if_pos (beq_iff_eq.2 h), if_pos h]
    rfl
  · rw [if_neg fun heq => h (beq_iff_eq.1 heq), if_neg h]
    rfl

theorem execOp_checkSig_eq :
    execOp ctx true pc (Opcode.ofByte opCheckSig) ⟨key :: sig :: s, [], [], nOpCount, code⟩ =
      (ctx.check (findAndDelete (push [] sig) code) sig key).map fun f =>
        ⟨vchBool f :: s, [], [], nOpCount, code⟩ := by
  change checkSigOp ctx false ⟨key :: sig :: s, [], [], nOpCount, code⟩ = _
  rw [checkSigOp, Option.map_eq_bind]
  rfl

/-- `OP_DUP OP_HASH160 <pubKeyHash> OP_EQUALVERIFY OP_CHECKSIG` on a signature and a key. -/
theorem evalLoop_pubKeyHash (hmatch : matchTemplate n pc pubKeyHashTemplate = some vSolutions) :
    ∃ hash, vSolutions = [hash] ∧ hash.length = 20 ∧ pc.length ≤ 45 ∧
      ∀ ctx key sig nOpCount code, nOpCount < 190 →
      evalLoop ctx pc.length pc ⟨[key, sig], [], [], nOpCount, code⟩ =
        if ctx.crypto.hash160 key = hash then
          (ctx.check (findAndDelete (push [] sig) code) sig key).map fun f =>
            ⟨[vchBool f], [], [], nOpCount + 4, code⟩
        else none := by
  obtain ⟨n₁, pc₁, hm₁, hlen₁, hdup⟩ := evalLoop_op (by decide) (by decide) (by decide) hmatch
  obtain ⟨n₂, pc₂, hm₂, hlen₂, hhash160⟩ := evalLoop_op (by decide) (by decide) (by decide) hm₁
  obtain ⟨n₃, pc₃, hash, v₃, rfl, hm₃, hlen₃, hlen, hpush⟩ := evalLoop_template_push (.inr rfl) hm₂
  obtain ⟨n₄, pc₄, hm₄, hlen₄, hequal⟩ := evalLoop_op (by decide) (by decide) (by decide) hm₃
  obtain ⟨n₅, pc₅, hm₅, hlen₅, hcheck⟩ := evalLoop_op (by decide) (by decide) (by decide) hm₄
  obtain ⟨rfl, rfl⟩ := matchTemplate_nil hm₅
  have h20 : hash.length = 20 := hlen rfl
  rw [List.length_nil] at hlen₅
  refine ⟨hash, rfl, h20, by omega, fun ctx key sig nOpCount code hcount => ?_⟩
  have hstep₁ : evalLoop ctx pc.length pc ⟨[key, sig], [], [], nOpCount, code⟩ =
      evalLoop ctx pc₁.length pc₁ ⟨[key, key, sig], [], [], nOpCount + 1, code⟩ :=
    (hdup ctx _ _ _ (by omega)).trans (resume_of_le (by simp))
  have hstep₂ : evalLoop ctx pc₁.length pc₁ ⟨[key, key, sig], [], [], nOpCount + 1, code⟩ =
      evalLoop ctx pc₂.length pc₂ ⟨[ctx.crypto.hash160 key, key, sig], [], [], nOpCount + 2, code⟩ :=
    (hhash160 ctx _ _ _ (by omega)).trans (resume_of_le (by simp))
  have hstep₃ : evalLoop ctx pc₂.length pc₂
        ⟨[ctx.crypto.hash160 key, key, sig], [], [], nOpCount + 2, code⟩ =
      evalLoop ctx pc₃.length pc₃
        ⟨[hash, ctx.crypto.hash160 key, key, sig], [], [], nOpCount + 2, code⟩ :=
    (hpush (by rw [h20]; decide) ctx _ _ _ (by omega)).trans (resume_of_le (by simp))
  rw [hstep₁, hstep₂, hstep₃, hequal ctx _ _ _ (by omega), execOp_equalVerify_eq]
  split
  · rw [Option.bind_some, resume_of_le (by simp), hcheck ctx _ _ _ (by omega), execOp_checkSig_eq]
    cases ctx.check (findAndDelete (push [] sig) code) sig key with
    | none => rfl
    | some f => rfl
  · rfl

end KeyHash

theorem evalScript_claim (hsolver : solver scriptPubKey = some (.claim, vSolutions)) :
    ∃ data hash, vSolutions = [data, hash] ∧ hash.length = 20 ∧
      ∀ ctx stack, evalScript ctx stack scriptPubKey = claimRun ctx scriptPubKey hash stack := by
  have hstandard := txTypeIsStandard_of_solver hsolver (by decide)
  obtain ⟨-, tplate, hmem, hmatch⟩ := solver_eq_some hsolver (by decide)
  obtain rfl : tplate = claimTemplate := by
    simpa [mTemplates, claimTemplate, pubKeyHashTemplate] using hmem
  obtain ⟨n₁, pc₁, data, v₁, rfl, hm₁, hlen₁, -, hdata⟩ :=
    evalLoop_template_push (.inl (by decide)) hmatch
  obtain ⟨n₂, pc₂, hm₂, hlen₂, hclaim⟩ := evalLoop_op (by decide) (by decide) (by decide) hm₁
  obtain ⟨hash, rfl, h20, hlen₃, hpay⟩ := evalLoop_pubKeyHash hm₂
  have h41 : data.length = 41 := beq_iff_eq.1 hstandard
  refine ⟨data, hash, rfl, h20, fun ctx stack => ?_⟩
  have hexec : ∀ nOpCount code, execOp ctx true pc₂ (Opcode.ofByte opClaim)
      ⟨data :: stack, [], [], nOpCount, code⟩ =
      if stack.length = 2 then some ⟨stack, [], [], nOpCount, code⟩ else none := by
    intro nOpCount code
    change (stackOp .claim (data :: stack)).map _ = _
    by_cases htwo : stack.length = 2
    · rw [stackOp, if_pos (by rw [List.length_cons, htwo]), if_pos h41, if_pos htwo]
      rfl
    · rw [stackOp, if_neg (by rw [List.length_cons]; omega), if_neg htwo]
      rfl
  rw [evalScript, if_neg (by omega), hdata (by rw [h41]; decide) ctx _ _ _ (by decide)]
  by_cases htwo : stack.length = 2
  · rw [resume_of_le (by simp [htwo]), hclaim ctx _ _ _ (by decide), hexec, if_pos htwo, Option.bind_some,
      resume_of_le (by simp [htwo])]
    obtain ⟨key, sig, rfl⟩ := List.length_eq_two.1 htwo
    rw [hpay ctx _ _ _ _ (by decide), claimRun]
    by_cases hhash : ctx.crypto.hash160 key = hash
    · rw [if_pos hhash, if_pos hhash]
      cases ctx.check (findAndDelete (push [] sig) scriptPubKey) sig key with
      | none => rfl
      | some f => rfl
    · rw [if_neg hhash, if_neg hhash]
  · have hfail : resume ctx pc₁ ⟨data :: stack, [], [], 0, scriptPubKey⟩ = none := by
      rw [resume]
      split
      · rfl
      · rw [hclaim ctx _ _ _ (by decide), hexec, if_neg htwo]
        rfl
    rw [hfail, claimRun_of_length_ne htwo]

theorem length_keyHash
    (hsolver : solver scriptPubKey = some (t, vSolutions)) (ht : t = .pubkeyhash ∨ t = .claim) :
    (vSolutions.getLastD []).length = 20 := by
  obtain rfl | rfl := ht
  · obtain ⟨-, tplate, hmem, hmatch⟩ := solver_eq_some hsolver (by decide)
    obtain rfl : tplate = pubKeyHashTemplate := by simpa [mTemplates, pubKeyHashTemplate] using hmem
    obtain ⟨hash, rfl, h20, -⟩ := evalLoop_pubKeyHash hmatch
    exact h20
  · obtain ⟨data, hash, rfl, h20, -⟩ := evalScript_claim hsolver
    exact h20

def TxnOutType.isUnspendable : TxnOutType → Bool
  | .purchase1 | .purchase4 | .setOwner | .setManager | .setDelegate | .setController | .enable
  | .disable | .setMeta | .feework => true
  | _ => false

theorem template_of_isUnspendable {tplate : CScript} (ht : t.isUnspendable = true)
    (hmem : (t, tplate) ∈ mTemplates) :
    ∃ opcode opcode', tplate = [opcode, opcode'] ∧ opcode ≤ opPushdata4 ∧ op16 < opcode' ∧
      opcode' < opSmallData ∧ Opcode.ofByte opcode' = .unspendable := by
  have hall : ∀ entry ∈ mTemplates, entry.1.isUnspendable = true → entry.2.length = 2 ∧
      entry.2.getD 0 0 ≤ opPushdata4 ∧ op16 < entry.2.getD 1 0 ∧ entry.2.getD 1 0 < opSmallData ∧
      Opcode.ofByte (entry.2.getD 1 0) = .unspendable := by decide
  obtain ⟨hlen, hpush, hop16, hlt, hop⟩ := hall _ hmem ht
  obtain ⟨opcode, opcode', rfl⟩ := List.length_eq_two.1 hlen
  exact ⟨opcode, opcode', rfl, hpush, hop16, hlt, hop⟩

theorem evalScript_unspendable {ctx : EvalContext} (hsolver : solver scriptPubKey = some (t, vSolutions))
    (ht : t.isUnspendable = true) (stack : List Bytes) : evalScript ctx stack scriptPubKey = none := by
  rw [Option.eq_none_iff_forall_ne_some]
  intro stack' h
  obtain ⟨st', hrun, -⟩ := evalScript_eq_some h
  have hscript : t ≠ .scripthash := by
    rintro rfl
    cases ht
  obtain ⟨-, tplate, hmem, hmatch⟩ := solver_eq_some hsolver hscript
  obtain ⟨opcode, opcode', rfl, hpush, hop16, hlt, hop⟩ := template_of_isUnspendable ht hmem
  obtain ⟨n₁, pc₁, k₁, data, rest, rfl, hm₁, hrun₁⟩ := hrun.push rfl (.inl hpush) hmatch
  obtain ⟨n₂, pc₂, k₂, st₂, -, hexec, -⟩ := hrun₁.op rfl ⟨UInt8.lt_trans (by decide) hop16, hlt⟩ hm₁
  rw [hop] at hexec
  cases hexec

/-- Outputs of purchases, key changes, state changes, metadata and feework are never spent; a claim
output is spent by an input script that leaves a signature and a key, and nothing else. -/
theorem verifyScript_registry (ctx : EvalContext) (scriptSig : CScript) {scriptPubKey : CScript}
    {t : TxnOutType} {vSolutions : List Bytes} (hsolver : solver scriptPubKey = some (t, vSolutions)) :
    (t.isUnspendable = true → verifyScript ctx scriptSig scriptPubKey = false) ∧
    (t = .claim → ∃ data hash, vSolutions = [data, hash] ∧
      (verifyScript ctx scriptSig scriptPubKey = true ↔
        ∃ sig key, evalScript ctx [] scriptSig = some [key, sig] ∧ ctx.crypto.hash160 key = hash ∧
          ctx.check (findAndDelete (push [] sig) scriptPubKey) sig key = some true)) := by
  constructor
  · intro ht
    rw [verifyScript]
    split
    · rfl
    · rw [evalScript_unspendable hsolver ht]
  · rintro rfl
    obtain ⟨data, hash, rfl, -, hrun⟩ := evalScript_claim hsolver
    obtain ⟨hnot, -⟩ := solver_eq_some hsolver (by decide)
    refine ⟨data, hash, rfl, fun haccept => ?_, ?_⟩
    · rw [verifyScript] at haccept
      split at haccept
      · cases haccept
      · next stack hsig =>
        rw [hrun] at haccept
        obtain ⟨key, sig, rfl⟩ : ∃ key sig, stack = [key, sig] := by
          refine List.length_eq_two.1 (not_not.1 fun hlen => ?_)
          rw [claimRun_of_length_ne hlen] at haccept
          cases haccept
        rw [claimRun] at haccept
        by_cases hhash : ctx.crypto.hash160 key = hash
        · rw [if_pos hhash] at haccept
          refine ⟨sig, key, hsig, hhash, ?_⟩
          cases hcheck : ctx.check (findAndDelete (push [] sig) scriptPubKey) sig key with
          | none =>
            rw [hcheck] at haccept
            cases haccept
          | some f =>
            rw [hcheck] at haccept
            cases f with
            | false => cases haccept
            | true => rfl
        · rw [if_neg hhash] at haccept
          cases haccept
    · rintro ⟨sig, key, hsig, hhash, hcheck⟩
      rw [verifyScript, hsig]
      dsimp only
      rw [hrun, claimRun, if_pos hhash, hcheck]
      dsimp only [Option.map_some]
      rw [hnot]
      rfl

def claimOwnKey : CScript :=
  CScript.push [] (List.replicate 41 0x55) ++ [opClaim, opDup, opHash160] ++
    CScript.push [] (ownCrypto.hash160 ownKey) ++ [opEqualVerify, opCheckSig]

theorem verifyScript_registry_own :
    solver claimOwnKey = some (.claim, [List.replicate 41 0x55, ownCrypto.hash160 ownKey]) ∧
    verifyScript (blockContext ownCrypto .missFix2 .missFix2 (spendOwnKey plainSig) 0) plainSig
      claimOwnKey = true := by
  have hsolver : solver claimOwnKey =
      some (.claim, [List.replicate 41 0x55, ownCrypto.hash160 ownKey]) := by decide +kernel
  obtain ⟨data, hash, heq, hiff⟩ := (verifyScript_registry
    (blockContext ownCrypto .missFix2 .missFix2 (spendOwnKey plainSig) 0) plainSig hsolver).2 rfl
  cases heq
  refine ⟨hsolver, hiff.2 ⟨derSignature, ownKey, ?_⟩⟩
  decide +kernel

end Stealth

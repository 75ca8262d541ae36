import Mathlib.Algebra.Order.Group.Nat
import Stealth.Chain.CheckBlock
import Stealth.Script.Refinement

/-!
Counted signature operations and the signatures that are verified. `GetSigOpCount` counts from the opcodes
alone.
-/

namespace Stealth

open Effect Eval

variable {script : CScript} {st : ScriptState}

namespace CScript

def op1 : UInt8 := 0x51
def opCheckSigVerify : UInt8 := 0xad
def opCheckMultisigVerify : UInt8 := 0xaf
def opInvalidOpcode : UInt8 := 0xff

def sigOps (fAccurate : Bool) (lastOpcode opcode : UInt8) : UInt32 :=
  if opcode = opCheckSig ∨ opcode = opCheckSigVerify then 1
  else if opcode = opCheckMultisig ∨ opcode = opCheckMultisigVerify then
    if fAccurate ∧ op1 ≤ lastOpcode ∧ lastOpcode ≤ op16 then (decodeOpN lastOpcode).toUInt32 else 20
  else 0

def getSigOpCountFrom (fAccurate : Bool) : Nat → UInt8 → Bytes → UInt32 → UInt32
  | 0, _, _, n => n
  | fuel + 1, lastOpcode, pc, n =>
    match getOp pc with
    | none => n
    | some (opcode, _, next) => getSigOpCountFrom fAccurate fuel opcode next (n + sigOps fAccurate lastOpcode opcode)

def getSigOpCount (fAccurate : Bool) (script : CScript) : UInt32 :=
  getSigOpCountFrom fAccurate script.length opInvalidOpcode script 0

def sigOpSum (fAccurate : Bool) : Nat → UInt8 → Bytes → Nat
  | 0, _, _ => 0
  | fuel + 1, lastOpcode, pc =>
    match getOp pc with
    | none => 0
    | some (opcode, _, next) => (sigOps fAccurate lastOpcode opcode).toNat + sigOpSum fAccurate fuel opcode next

theorem toNat_decodeOpN {opcode : UInt8} (hlow : op1 ≤ opcode) :
    (decodeOpN opcode).toUInt32.toNat = opcode.toNat - 80 := by
  have hlow : 81 ≤ opcode.toNat := UInt8.le_iff_toNat_le.1 hlow
  have hne : opcode ≠ 0 := by
    rintro rfl
    exact absurd hlow (by decide)
  have hle : (0x50 : UInt8) ≤ opcode := UInt8.le_iff_toNat_le.2 (by exact Nat.le_of_succ_le hlow)
  rw [decodeOpN, if_neg hne, UInt8.toNat_toUInt32, UInt8.toNat_sub_of_le _ _ hle]
  rfl

theorem sigOps_le (fAccurate : Bool) (lastOpcode opcode : UInt8) :
    (sigOps fAccurate lastOpcode opcode).toNat ≤ 20 := by
  rw [sigOps]
  split
  · decide
  · split
    · split
      · next h =>
        have hhigh : lastOpcode.toNat ≤ 96 := UInt8.le_iff_toNat_le.1 h.2.2
        rw [toNat_decodeOpN h.2.1]
        omega
      · decide
    · decide

theorem sigOpSum_le (fAccurate : Bool) (fuel : Nat) :
    ∀ lastOpcode pc, sigOpSum fAccurate fuel lastOpcode pc ≤ 20 * fuel := by
  induction fuel with
  | zero => exact fun _ _ => Nat.le_refl 0
  | succ fuel ih =>
    intro lastOpcode pc
    rw [sigOpSum]
    split
    · exact Nat.zero_le _
    · next opcode _ next _ =>
      have hone := sigOps_le fAccurate lastOpcode opcode
      have hrest := ih opcode next
      omega

theorem toNat_getSigOpCountFrom (fAccurate : Bool) (fuel : Nat) :
    ∀ lastOpcode pc (n : UInt32), n.toNat + 20 * fuel < 2 ^ 32 →
      (getSigOpCountFrom fAccurate fuel lastOpcode pc n).toNat =
        n.toNat + sigOpSum fAccurate fuel lastOpcode pc := by
  induction fuel with
  | zero => exact fun _ _ _ _ => rfl
  | succ fuel ih =>
    intro lastOpcode pc n hn
    rw [getSigOpCountFrom, sigOpSum]
    split
    · rfl
    · next opcode _ next _ =>
      have hone := sigOps_le fAccurate lastOpcode opcode
      have hadd : (n + sigOps fAccurate lastOpcode opcode).toNat =
          n.toNat + (sigOps fAccurate lastOpcode opcode).toNat := by
        rw [UInt32.toNat_add, Nat.mod_eq_of_lt (by omega)]
      rw [ih opcode next _ (by omega), hadd, Nat.add_assoc]

theorem toNat_getSigOpCount (fAccurate : Bool) (h : 20 * script.length < 2 ^ 32) :
    (getSigOpCount fAccurate script).toNat =
      sigOpSum fAccurate script.length opInvalidOpcode script := by
  have hzero : (0 : UInt32).toNat = 0 := rfl
  rw [getSigOpCount, toNat_getSigOpCountFrom fAccurate _ _ _ 0 (by omega), hzero, Nat.zero_add]

end CScript

open CScript

/-- If the last opcode was one of `OP_1` to `OP_16` and is executed, its number is on top of the stack. -/
def LastPushed (lastOpcode : UInt8) (st : ScriptState) : Prop :=
  op1 ≤ lastOpcode → lastOpcode ≤ op16 → st.vfExec.all id = true →
    st.stack.head? = some (getVch (lastOpcode.toNat - 80 : Nat))

theorem ofByte_smallInt : ∀ n < 97, 81 ≤ n → Opcode.ofByte (UInt8.ofNat n) = .smallInt (n - 80 : Nat) := by
  decide +kernel

theorem ofByte_checkSig : ∀ n < 256, ∀ f : Bool, Opcode.ofByte (UInt8.ofNat n) = .checkSig f →
    n = 172 ∨ n = 173 := by
  decide +kernel

theorem ofByte_checkMultisig : ∀ n < 256, ∀ f : Bool, Opcode.ofByte (UInt8.ofNat n) = .checkMultisig f →
    n = 174 ∨ n = 175 := by
  decide +kernel

theorem castToNum_getVch : ∀ n < 17, 1 ≤ n → castToNum (getVch (n : Nat)) = some (n : Int) := by
  decide

theorem lastPushed_evalStep {ctx : EvalContext} {pc vch next pc' : Bytes} {opcode : UInt8} {st' : ScriptState}
    (hop : getOp pc = some (opcode, vch, next)) (h : Stealth.evalStep ctx pc st = some (pc', st')) :
    LastPushed opcode st' := by
  intro hlow hhigh hexec'
  obtain ⟨-, nOpCount, hexec⟩ := evalStep_eq_some hop h
  have hlow : 81 ≤ opcode.toNat := UInt8.le_iff_toNat_le.1 hlow
  have hhigh : opcode.toNat ≤ 96 := UInt8.le_iff_toNat_le.1 hhigh
  have hpush : ¬ opcode ≤ opPushdata4 := by
    intro hle
    have hle : opcode.toNat ≤ 78 := UInt8.le_iff_toNat_le.1 hle
    omega
  have hcond : ¬ (opIf ≤ opcode ∧ opcode ≤ opEndIf) := by
    rintro ⟨hle, -⟩
    have hle : 99 ≤ opcode.toNat := UInt8.le_iff_toNat_le.1 hle
    omega
  have hbyte := ofByte_smallInt opcode.toNat (by omega) hlow
  rw [UInt8.ofNat_toNat] at hbyte
  rw [Stealth.execInstruction] at hexec
  dsimp only at hexec
  rw [if_neg (fun h => hpush h.2), hbyte] at hexec
  split at hexec
  · cases hexec
    rfl
  · next hskip =>
    cases hexec
    exact absurd (.inl hexec') hskip

theorem multisigKeys_le (stack : List Bytes) : multisigKeys stack ≤ 20 := Nat.min_le_left _ _

theorem multisigKeys_of_lastPushed {lastOpcode : UInt8} (h : LastPushed lastOpcode st)
    (hlow : op1 ≤ lastOpcode) (hhigh : lastOpcode ≤ op16) (hexec : st.vfExec.all id = true) :
    multisigKeys st.stack ≤ (decodeOpN lastOpcode).toUInt32.toNat := by
  have hlow' : 81 ≤ lastOpcode.toNat := UInt8.le_iff_toNat_le.1 hlow
  have hhigh' : lastOpcode.toNat ≤ 96 := UInt8.le_iff_toNat_le.1 hhigh
  rw [toNat_decodeOpN hlow, multisigKeys, h hlow hhigh hexec, Option.bind_some,
    castToNum_getVch _ (by omega) (by omega), Option.getD_some, Int.toNat_natCast]
  exact Nat.min_le_right _ _

theorem instructionChecks_le {lastOpcode : UInt8} (h : LastPushed lastOpcode st)
    (fAccurate : Bool) (opcode : UInt8) :
    instructionChecks opcode st ≤ (sigOps fAccurate lastOpcode opcode).toNat := by
  rw [instructionChecks]
  split
  · exact Nat.zero_le _
  · split
    · next hswitch =>
      cases hop : Opcode.ofByte opcode with
      | checkSig f =>
        rw [← @UInt8.ofNat_toNat opcode] at hop
        have hone : (sigOps fAccurate lastOpcode opcode).toNat = 1 := by
          rw [sigOps, if_pos]
          · rfl
          · rcases ofByte_checkSig _ opcode.toNat_lt f hop with heq | heq
            · exact .inl (UInt8.toNat_inj.1 heq)
            · exact .inr (UInt8.toNat_inj.1 heq)
        exact Nat.le_of_eq hone.symm
      | checkMultisig f =>
        rw [← @UInt8.ofNat_toNat opcode] at hop
        have hcode := ofByte_checkMultisig _ opcode.toNat_lt f hop
        have hexec : st.vfExec.all id = true := by
          rcases hswitch with hexec | ⟨-, hle⟩
          · exact hexec
          · have hle : opcode.toNat ≤ 104 := UInt8.le_iff_toNat_le.1 hle
            omega
        have hsig : ¬ (opcode = opCheckSig ∨ opcode = opCheckSigVerify) := by
          rintro (rfl | rfl)
          · exact absurd hcode (by decide)
          · exact absurd hcode (by decide)
        have hmulti : opcode = opCheckMultisig ∨ opcode = opCheckMultisigVerify := by
          rcases hcode with heq | heq
          · exact .inl (UInt8.toNat_inj.1 heq)
          · exact .inr (UInt8.toNat_inj.1 heq)
        rw [sigOps, if_neg hsig, if_pos hmulti]
        split
        · next hlast => exact multisigKeys_of_lastPushed h hlast.2.1 hlast.2.2 hexec
        · exact multisigKeys_le st.stack
      | _ => exact Nat.zero_le _
    · exact Nat.zero_le _

theorem loopChecks_le (ctx : EvalContext) (fAccurate : Bool) (fuel : Nat) :
    ∀ (lastOpcode : UInt8) (pc : Bytes) (st : ScriptState), LastPushed lastOpcode st →
      loopChecks ctx fuel pc st ≤ sigOpSum fAccurate fuel lastOpcode pc := by
  induction fuel with
  | zero =>
    intro lastOpcode pc st _
    cases pc with
    | nil => exact Nat.le_refl 0
    | cons b pc => exact Nat.le_refl 0
  | succ fuel ih =>
    intro lastOpcode pc st h
    cases pc with
    | nil => exact Nat.zero_le _
    | cons b pc =>
      rw [loopChecks, stepChecks, sigOpSum]
      cases hop : getOp (b :: pc) with
      | none => simp [Stealth.evalStep, hop]
      | some instr =>
        obtain ⟨opcode, vch, next⟩ := instr
        refine Nat.add_le_add (instructionChecks_le h fAccurate opcode) ?_
        cases hstep : Stealth.evalStep ctx (b :: pc) st with
        | none => exact Nat.zero_le _
        | some next' =>
          obtain ⟨pc', st'⟩ := next'
          obtain ⟨rfl, -⟩ := evalStep_eq_some hop hstep
          exact ih opcode _ st' (lastPushed_evalStep hop hstep)

/-- The signatures that `EvalScript` verifies, whether it returns true or false. -/
def verifications (ctx : EvalContext) (stack : List Bytes) (script : CScript) : Nat :=
  match Eval.evalScript ctx script (Machine.start stack script) with
  | .ok _ m => m.nChecks
  | .error _ m => m.nChecks

theorem verifications_le (ctx : EvalContext) (stack : List Bytes) (script : CScript) (fAccurate : Bool) :
    verifications ctx stack script ≤ (getSigOpCount fAccurate script).toNat := by
  have hfirst : LastPushed opInvalidOpcode ⟨stack, [], [], 0, script⟩ := fun _ hle => absurd hle (by decide)
  have hlimit : (if script.length > 10000 then 0
      else loopChecks ctx script.length script ⟨stack, [], [], 0, script⟩) ≤
        (getSigOpCount fAccurate script).toNat := by
    split
    · exact Nat.zero_le _
    · next hsmall =>
      rw [toNat_getSigOpCount fAccurate (by omega)]
      exact loopChecks_le ctx fAccurate _ _ _ _ hfirst
  have hrun := (agrees_evalScript ctx stack script).mono hlimit
  rw [verifications]
  split
  · next heq => exact (hrun.of_eq_ok heq).2
  · next heq => exact (hrun.of_eq_error heq).2.2

def CTransaction.getLegacySigOpCount (tx : CTransaction) : UInt32 :=
  tx.vout.foldl (fun nSigOps txout => nSigOps + getSigOpCount false txout.scriptPubKey)
    (tx.vin.foldl (fun nSigOps txin => nSigOps + getSigOpCount false txin.scriptSig) 0)

def blockSigOps (vtx : List CTransaction) : UInt32 :=
  vtx.foldl (fun nSigOps tx => nSigOps + tx.getLegacySigOpCount) 0

def CTransaction.scripts (tx : CTransaction) : List CScript :=
  tx.vin.map CTxIn.scriptSig ++ tx.vout.map CTxOut.scriptPubKey

theorem toNat_foldl_add {α : Type} (f : α → UInt32) (l : List α) :
    ∀ n : UInt32, n.toNat + (l.map fun x => (f x).toNat).sum < 2 ^ 32 →
      (l.foldl (fun n x => n + f x) n).toNat = n.toNat + (l.map fun x => (f x).toNat).sum := by
  induction l with
  | nil => exact fun _ _ => rfl
  | cons x l ih =>
    intro n hn
    rw [List.map_cons, List.sum_cons] at hn ⊢
    have hadd : (n + f x).toNat = n.toNat + (f x).toNat := by
      rw [UInt32.toNat_add, Nat.mod_eq_of_lt (by omega)]
    rw [List.foldl_cons, ih _ (by omega), hadd, Nat.add_assoc]

theorem foldl_add_eq {α : Type} (f : α → UInt32) (l : List α) :
    ∀ n : UInt32, l.foldl (fun n x => n + f x) n = n + l.foldl (fun n x => n + f x) 0 := by
  induction l with
  | nil => exact fun n => (UInt32.add_zero n).symm
  | cons x l ih =>
    intro n
    rw [List.foldl_cons, List.foldl_cons, ih (n + f x), ih (0 + f x), UInt32.zero_add, UInt32.add_assoc]

theorem blockSigOps_eq (vtx : List CTransaction) : blockSigOps vtx =
      (vtx.flatMap CTransaction.scripts).foldl (fun n script => n + getSigOpCount false script) 0 := by
  have htx : ∀ (n : UInt32) (tx : CTransaction), n + tx.getLegacySigOpCount =
      tx.scripts.foldl (fun n script => n + getSigOpCount false script) n := by
    intro n tx
    rw [foldl_add_eq, CTransaction.scripts, List.foldl_append, List.foldl_map, List.foldl_map]
    rfl
  rw [List.foldl_flatMap, blockSigOps]
  simp only [htx]

theorem getSigOpCount_le (h : 20 * script.length < 2 ^ 32) :
    (getSigOpCount false script).toNat ≤ 20 * script.length := by
  rw [toNat_getSigOpCount false h]
  exact sigOpSum_le false _ _ _

theorem sum_getSigOpCount_le : ∀ scripts : List CScript, 20 * (scripts.map List.length).sum < 2 ^ 32 →
    (scripts.map fun script => (getSigOpCount false script).toNat).sum ≤ 20 * (scripts.map List.length).sum
  | [], _ => Nat.le_refl 0
  | script :: scripts, h => by
    rw [List.map_cons, List.sum_cons] at h ⊢
    rw [List.map_cons, List.sum_cons]
    have hone := @getSigOpCount_le script (by omega)
    have hrest := sum_getSigOpCount_le scripts (by omega)
    omega

/-- The count of a block whose scripts are not too large for the counter is at least that of each script. -/
theorem getSigOpCount_le_blockSigOps {vtx : List CTransaction}
    (hscript : script ∈ vtx.flatMap CTransaction.scripts)
    (hsize : ((vtx.flatMap CTransaction.scripts).map List.length).sum ≤ MAX_BLOCK_SIZE) :
    (getSigOpCount false script).toNat ≤ (blockSigOps vtx).toNat := by
  have hlimit : MAX_BLOCK_SIZE = 1000000 := rfl
  have hzero : (0 : UInt32).toNat = 0 := rfl
  have hsum := sum_getSigOpCount_le _ (by omega : 20 * ((vtx.flatMap CTransaction.scripts).map List.length).sum < 2 ^ 32)
  rw [blockSigOps_eq, toNat_foldl_add _ _ 0 (by omega), hzero, Nat.zero_add]
  exact List.single_le_sum (fun _ _ => Nat.zero_le _) _ (List.mem_map_of_mem hscript)

/-- For every script, stack and context, `EvalScript` verifies at most as many signatures as `GetSigOpCount`
counts, in both modes, whether it returns true or false. A script of a block whose count is within the limit
takes no more verifications than the limit. -/
theorem verifications_le_getSigOpCount (ctx : EvalContext) (stack : List Bytes) (script : CScript) :
    (∀ fAccurate, verifications ctx stack script ≤ (getSigOpCount fAccurate script).toNat) ∧
    ∀ vtx : List CTransaction, script ∈ vtx.flatMap CTransaction.scripts →
      ((vtx.flatMap CTransaction.scripts).map List.length).sum ≤ MAX_BLOCK_SIZE →
      (blockSigOps vtx).toNat ≤ MAX_BLOCK_SIGOPS → verifications ctx stack script ≤ MAX_BLOCK_SIGOPS := by
  refine ⟨verifications_le ctx stack script, fun vtx hscript hsize hops => ?_⟩
  calc verifications ctx stack script
      _ ≤ (getSigOpCount false script).toNat := verifications_le ctx stack script false
      _ ≤ (blockSigOps vtx).toNat := getSigOpCount_le_blockSigOps hscript hsize
      _ ≤ MAX_BLOCK_SIGOPS := hops

def oneOfTwo : CScript :=
  op1 :: (push (push [] (2 :: List.replicate 32 1)) (2 :: List.replicate 32 2) ++ [0x52, opCheckMultisig])

def noSignature : EvalContext where
  crypto := ⟨fun _ => List.replicate 20 0, fun _ => List.replicate 20 0, fun _ => List.replicate 32 0, fun _ _ _ => false⟩
  nFork := .genesis
  txTo := ⟨1, 0, [], [], 0⟩
  nIn := 0
  flags := Flags.none
  nHashType := 0

theorem verifications_le_getSigOpCount_oneOfTwo :
    verifications noSignature [[1], []] oneOfTwo = 2 ∧ (getSigOpCount true oneOfTwo).toNat = 2 ∧
      (getSigOpCount false oneOfTwo).toNat = 20 ∧
      verifications noSignature [[1], []] oneOfTwo ≤ MAX_BLOCK_SIGOPS := by
  refine ⟨by decide +kernel, by decide +kernel, by decide +kernel, ?_⟩
  exact (verifications_le_getSigOpCount noSignature [[1], []] oneOfTwo).2 [⟨1, 0, [], [⟨0, oneOfTwo⟩], 0⟩]
    (by decide +kernel) (by decide +kernel) (by decide +kernel)

end Stealth

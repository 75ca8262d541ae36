import Stealth.Script.Solver

/-!
The signatory of a transaction: `GetSignatory` reads the last 33 bytes of an input script, verification runs
it.
-/

namespace Stealth

open CScript

variable {opcode : UInt8} {t : TxnOutType} {vSolutions : List Bytes} {scriptPubKey : CScript}
  {ctx : EvalContext}

/-- What a node knows about the blocks of transactions: the fork at its best block, the block that a
transaction is in according to `GetTransaction`, and whether an indexed block is in the main chain. -/
structure TxView where
  nFork : Fork
  blockOf : Uint256 → Option Uint256
  isInMainChain : Uint256 → Option Bool

abbrev MapPrevTx := Uint256 → Option CTransaction

def getOutputFor (mapInputs : MapPrevTx) (input : CTxIn) : Option CTxOut :=
  (mapInputs input.prevout.hash).bind fun txPrev => txPrev.vout[input.prevout.n.toNat]?

def inputIsSettled (view : TxView) (input : CTxIn) : Bool :=
  if .qposB ≤ view.nFork then
    match view.blockOf input.prevout.hash with
    | none => false
    | some hashBlock => hashBlock != 0 && view.isInMainChain hashBlock == some true
  else true

def last33 (s : CScript) : Bytes := s.drop (s.length - 33)

def getSignatory (view : TxView) (mapInputs : MapPrevTx) (tx : CTransaction) (idx : Nat) :
    Option CPubKey :=
  match tx.vin[idx]? with
  | none => none
  | some input =>
    if inputIsSettled view input then
      match (getOutputFor mapInputs input).bind fun prevout => solver prevout.scriptPubKey with
      | none => none
      | some (.pubkey, vSolutions) =>
        let key := vSolutions.headD []
        if key.length = 33 then some key else none
      | some (.pubkeyhash, _) | some (.claim, _) =>
        if 33 ≤ input.scriptSig.length then some (last33 input.scriptSig) else none
      | some _ => none
    else none

def pubKeyHashTemplate : CScript := [opDup, opHash160, opPubKeyHash, opEqualVerify, opCheckSig]

def claimTemplate : CScript := [0x29, opClaim] ++ pubKeyHashTemplate

def Runs (ctx : EvalContext) (pc : Bytes) (st st' : ScriptState) : Prop :=
  ∃ fuel, evalLoop ctx fuel pc st = some st'

section Templates

variable {ctx : EvalContext} {n : Nat} {pc : Bytes} {st st' : ScriptState} {tplate : CScript}
  {vSolutions : List Bytes}

theorem matchTemplate_cons_op (hop : opPushdata4 < opcode ∧ opcode < opSmallData)
    (hmatch : matchTemplate n pc (opcode :: tplate) = some vSolutions) :
    ∃ n' vch next, getOp pc = some (opcode, vch, next) ∧
      matchTemplate n' next tplate = some vSolutions := by
  have hkeys : opcode ≠ opPubKeys := by
    rintro rfl
    exact absurd hop.2 (by decide)
  obtain ⟨n', opcode1, vch, next, found, rest, hget, hfound, hrest, rfl⟩ :=
    matchTemplate_cons hkeys hmatch
  obtain ⟨rfl, rfl⟩ := matchOp_op hop hfound
  exact ⟨n', vch, next, hget, hrest⟩

theorem matchTemplate_cons_push (hop : opcode ≤ opPushdata4 ∨ opcode = opPubKeyHash)
    (hmatch : matchTemplate n pc (opcode :: tplate) = some vSolutions) :
    ∃ n' opcode1 vch next rest, getOp pc = some (opcode1, vch, next) ∧ opcode1 ≤ opPushdata4 ∧
      vSolutions = vch :: rest ∧ matchTemplate n' next tplate = some rest ∧
      (opcode = opPubKeyHash → vch.length = 20) := by
  have hkeys : opcode ≠ opPubKeys := by
    rintro rfl
    exact absurd hop (by decide)
  obtain ⟨n', opcode1, vch, next, found, rest, hget, hfound, hrest, rfl⟩ :=
    matchTemplate_cons hkeys hmatch
  obtain hop | rfl := hop
  · obtain ⟨rfl, rfl⟩ := matchOp_push hop hfound
    refine ⟨n', opcode1, vch, next, rest, hget, hop, rfl, hrest, ?_⟩
    rintro rfl
    exact absurd hop (by decide)
  · obtain ⟨hlen, rfl⟩ := matchOp_pubKeyHash hfound
    refine ⟨n', opcode1, vch, next, rest, hget, le_opPushdata4_of_getOp hget ?_, rfl, hrest, fun _ => hlen⟩
    rintro rfl
    cases hlen

theorem Runs.op (hcond : st.vfExec = []) (hop : opPushdata4 < opcode ∧ opcode < opSmallData)
    (hmatch : matchTemplate n pc (opcode :: tplate) = some vSolutions) (hrun : Runs ctx pc st st') :
    ∃ n' pc' nOpCount st₁, matchTemplate n' pc' tplate = some vSolutions ∧
      execOp ctx true pc' (Opcode.ofByte opcode) { st with nOpCount := nOpCount } = some st₁ ∧
      Runs ctx pc' st₁ st' := by
  obtain ⟨n', vch, pc', hget, hrest⟩ := matchTemplate_cons_op hop hmatch
  obtain ⟨fuel, hrun⟩ := hrun
  obtain ⟨fuel', nOpCount, st₁, hexec, hrun'⟩ := evalLoop_eq_some hget hrun
  rw [execInstruction_op (show ({ st with nOpCount := nOpCount } : ScriptState).vfExec = [] from hcond)
    (UInt8.not_le.mpr hop.1)] at hexec
  exact ⟨n', pc', nOpCount, st₁, hrest, hexec, fuel', hrun'⟩

theorem Runs.push (hcond : st.vfExec = []) (hop : opcode ≤ opPushdata4 ∨ opcode = opPubKeyHash)
    (hmatch : matchTemplate n pc (opcode :: tplate) = some vSolutions) (hrun : Runs ctx pc st st') :
    ∃ n' pc' nOpCount vch rest, vSolutions = vch :: rest ∧
      matchTemplate n' pc' tplate = some rest ∧
      Runs ctx pc' { st with nOpCount := nOpCount, stack := vch :: st.stack } st' := by
  obtain ⟨n', opcode1, vch, pc', rest, hget, hpush, rfl, hrest, -⟩ := matchTemplate_cons_push hop hmatch
  obtain ⟨fuel, hrun⟩ := hrun
  obtain ⟨fuel', nOpCount, st₁, hexec, hrun'⟩ := evalLoop_eq_some hget hrun
  rw [execInstruction_push (show ({ st with nOpCount := nOpCount } : ScriptState).vfExec = [] from hcond)
    hpush] at hexec
  cases hexec
  exact ⟨n', pc', nOpCount, vch, rest, rfl, hrest, fuel', hrun'⟩

theorem execOp_equalVerify {x1 x2 : Bytes} {s : List Bytes} (hstack : st.stack = x2 :: x1 :: s)
    (h : execOp ctx true pc (Opcode.ofByte opEqualVerify) st = some st') :
    x1 = x2 ∧ st' = { st with stack := s } := by
  obtain ⟨stack, heq, rfl⟩ := Option.map_eq_some_iff.mp
    (show (stackOp (.equal true) st.stack).map _ = some st' from h)
  rw [hstack, stackOp, pushResult, if_pos rfl] at heq
  split at heq
  · next hsame =>
    cases heq
    exact ⟨eq_of_beq hsame, rfl⟩
  · cases heq

theorem execOp_checkSig (h : execOp ctx true pc (Opcode.ofByte opCheckSig) st = some st') :
    ∃ key sig s fSuccess code, st.stack = key :: sig :: s ∧ ctx.check code sig key = some fSuccess ∧
      st' = { st with stack := vchBool fSuccess :: s } := by
  have hop : checkSigOp ctx false st = some st' := h
  rw [checkSigOp] at hop
  split at hop
  · next key sig s hstack =>
    obtain ⟨fSuccess, hcheck, hop⟩ := Option.bind_eq_some_iff.mp hop
    cases hop
    exact ⟨key, sig, s, fSuccess, _, hstack, hcheck, rfl⟩
  · cases hop

/-- The stack after `OP_DUP OP_HASH160 <pubKeyHash> OP_EQUALVERIFY OP_CHECKSIG` has the verdict on the
signature in place of signature and key. -/
theorem Runs.payToPubKeyHash (hcond : st.vfExec = [])
    (hmatch : matchTemplate n pc pubKeyHashTemplate = some vSolutions) (hrun : Runs ctx pc st st') :
    ∃ key sig s fSuccess, st.stack = key :: sig :: s ∧ vSolutions = [ctx.crypto.hash160 key] ∧
      (∃ code, ctx.check code sig key = some fSuccess) ∧ st'.stack = vchBool fSuccess :: s := by
  obtain ⟨stack, alt, vfExec, cnt, code⟩ := st
  cases hcond
  obtain ⟨n₁, pc₁, k₁, st₁, hm₁, hdup, hrun₁⟩ := hrun.op rfl (by decide) hmatch
  cases stack with
  | nil => cases hdup
  | cons key stack =>
    cases hdup
    obtain ⟨n₂, pc₂, k₂, st₂, hm₂, hhash, hrun₂⟩ := hrun₁.op rfl (by decide) hm₁
    cases hhash
    obtain ⟨n₃, pc₃, k₃, vch, rest, rfl, hm₃, hrun₃⟩ := hrun₂.push rfl (.inr rfl) hm₂
    obtain ⟨n₄, pc₄, k₄, st₄, hm₄, hequal, hrun₄⟩ := hrun₃.op rfl (by decide) hm₃
    obtain ⟨hhash, rfl⟩ := execOp_equalVerify rfl hequal
    obtain ⟨n₅, pc₅, k₅, st₅, hm₅, hcheck, fuel, hrun₅⟩ := hrun₄.op rfl (by decide) hm₄
    obtain ⟨key', sig, s, fSuccess, code', hstack, hok, rfl⟩ := execOp_checkSig hcheck
    obtain ⟨rfl, rfl⟩ := matchTemplate_nil hm₅
    cases hstack
    rw [evalLoop] at hrun₅
    cases hrun₅
    exact ⟨key, sig, s, fSuccess, rfl, congrArg (fun v => [v]) hhash.symm, ⟨code', hok⟩, rfl⟩

theorem Runs.claim (hcond : st.vfExec = [])
    (hmatch : matchTemplate n pc claimTemplate = some vSolutions) (hrun : Runs ctx pc st st') :
    ∃ key sig s fSuccess data, st.stack = key :: sig :: s ∧
      vSolutions = [data, ctx.crypto.hash160 key] ∧
      (∃ code, ctx.check code sig key = some fSuccess) ∧ st'.stack = vchBool fSuccess :: s := by
  obtain ⟨stack, alt, vfExec, cnt, code⟩ := st
  cases hcond
  obtain ⟨n₁, pc₁, k₁, data, rest, rfl, hm₁, hrun₁⟩ := hrun.push rfl (.inl (by decide)) hmatch
  obtain ⟨n₂, pc₂, k₂, st₂, hm₂, hclaim, hrun₂⟩ := hrun₁.op rfl (by decide) hm₁
  obtain ⟨stack', hstack, rfl⟩ := Option.map_eq_some_iff.mp
    (show (stackOp .claim (data :: stack)).map _ = some st₂ from hclaim)
  rw [stackOp] at hstack
  split_ifs at hstack
  cases hstack
  obtain ⟨key, sig, s, fSuccess, hkey, rfl, hok, htop⟩ := hrun₂.payToPubKeyHash rfl hm₂
  exact ⟨key, sig, s, fSuccess, data, hkey, rfl, hok, htop⟩

end Templates

variable {mapInputs : MapPrevTx} {tx : CTransaction} {script : CScript} {stack' stack : List Bytes}
  {view : TxView} {input : CTxIn} {prevout : CTxOut} {key : CPubKey}

theorem findTemplate_eq_some :
    ∀ {ts : List (TxnOutType × CScript)}, findTemplate script ts = some (t, vSolutions) →
      ∃ tplate, (t, tplate) ∈ ts ∧ matchTemplate script.length script tplate = some vSolutions := by
  intro ts
  induction ts with
  | nil => intro h; cases h
  | cons entry ts ih =>
    intro h
    rw [findTemplate] at h
    split at h
    · next hmatch =>
      cases h
      exact ⟨_, List.mem_cons_self, hmatch⟩
    · obtain ⟨tplate, hmem, hmatch⟩ := ih h
      exact ⟨tplate, List.mem_cons_of_mem _ hmem, hmatch⟩

theorem solver_eq_some (h : solver scriptPubKey = some (t, vSolutions)) (ht : t ≠ .scripthash) :
    isPayToScriptHash scriptPubKey = false ∧ ∃ tplate, (t, tplate) ∈ mTemplates ∧
      matchTemplate scriptPubKey.length scriptPubKey tplate = some vSolutions := by
  rw [solver] at h
  split at h
  · cases h
    exact absurd rfl ht
  · next hscript =>
    split at h
    · cases h
    · next hfind =>
      split at h
      · cases h
        exact ⟨eq_false_of_ne_true hscript, findTemplate_eq_some hfind⟩
      · cases h

theorem evalScript_eq_some (h : evalScript ctx stack script = some stack') :
    ∃ st', Runs ctx script ⟨stack, [], [], 0, script⟩ st' ∧ st'.vfExec = [] ∧ st'.stack = stack' := by
  rw [evalScript] at h
  split at h
  · cases h
  · split at h
    · cases h
    · next st' hrun =>
      split at h
      · next hcond =>
        cases h
        exact ⟨st', ⟨_, hrun⟩, List.isEmpty_iff.mp hcond, rfl⟩
      · cases h

/-- The run of an output script that pays to a key hash, on any stack. The key hash is the last
solution. -/
theorem evalScript_keyHash (hsolver : solver scriptPubKey = some (t, vSolutions))
    (ht : t = .pubkeyhash ∨ t = .claim) (h : evalScript ctx stack scriptPubKey = some stack') :
    ∃ key sig s fSuccess, stack = key :: sig :: s ∧
      vSolutions.getLast? = some (ctx.crypto.hash160 key) ∧
      (∃ code, ctx.check code sig key = some fSuccess) ∧ stack' = vchBool fSuccess :: s := by
  obtain ⟨st', hrun, -, rfl⟩ := evalScript_eq_some h
  rcases ht with rfl | rfl
  · obtain ⟨-, tplate, hmem, hmatch⟩ := solver_eq_some hsolver (by decide)
    obtain rfl : tplate = pubKeyHashTemplate := by simpa [mTemplates, pubKeyHashTemplate] using hmem
    obtain ⟨key, sig, s, fSuccess, hstack, rfl, hok, htop⟩ := hrun.payToPubKeyHash rfl hmatch
    exact ⟨key, sig, s, fSuccess, hstack, rfl, hok, htop⟩
  · obtain ⟨-, tplate, hmem, hmatch⟩ := solver_eq_some hsolver (by decide)
    obtain rfl : tplate = claimTemplate := by
      simpa [mTemplates, claimTemplate, pubKeyHashTemplate] using hmem
    obtain ⟨key, sig, s, fSuccess, data, hstack, rfl, hok, htop⟩ := hrun.claim rfl hmatch
    exact ⟨key, sig, s, fSuccess, hstack, rfl, hok, htop⟩

/-- An accepted input leaves a checked key on the stack, with the key hash that the output names. -/
theorem checked_of_verifyScript {scriptSig : CScript} (hsolver : solver scriptPubKey = some (t, vSolutions))
    (ht : t = .pubkeyhash ∨ t = .claim) (h : verifyScript ctx scriptSig scriptPubKey = true) :
    ∃ key sig s code, evalScript ctx [] scriptSig = some (key :: sig :: s) ∧
      vSolutions.getLast? = some (ctx.crypto.hash160 key) ∧ ctx.check code sig key = some true := by
  rw [verifyScript] at h
  split at h
  · cases h
  · next stackCopy hsig =>
    split at h
    · cases h
    · cases h
    · next top rest hpub =>
      obtain ⟨key, sig, s, fSuccess, rfl, hhash, ⟨code, hok⟩, htop⟩ :=
        evalScript_keyHash hsolver ht hpub
      cases htop
      cases fSuccess with
      | true => exact ⟨key, sig, _, code, hsig, hhash, hok⟩
      | false => cases h

/-- How a block runs the scripts of input `nIn`: `nFork` is the fork at the best height, `nForkNext`
the one at the height of the block. -/
def blockContext (c : Crypto) (nFork nForkNext : Fork) (tx : CTransaction) (nIn : UInt32) :
    EvalContext :=
  ⟨c, nFork, tx, nIn, Flags.ofBlock nForkNext, 0⟩

def keyOnStack (ctx : EvalContext) (scriptSig : CScript) : Option Bytes :=
  (evalScript ctx [] scriptSig).bind List.head?

theorem getSignatory_of_keyHash {idx : Nat} (hinput : tx.vin[idx]? = some input)
    (hprevout : getOutputFor mapInputs input = some prevout)
    (hsolver : solver prevout.scriptPubKey = some (t, vSolutions)) (ht : t = .pubkeyhash ∨ t = .claim)
    (hkey : getSignatory view mapInputs tx idx = some key) :
    key = last33 input.scriptSig := by
  rw [getSignatory, hinput] at hkey
  simp only [hprevout, Option.bind_some, hsolver] at hkey
  split at hkey
  · rcases ht with rfl | rfl
    all_goals
      simp only at hkey
      split at hkey
      · cases hkey
        rfl
      · cases hkey
  · cases hkey

/-- The signatory of an accepted input has the key hash of the spent output exactly when the input
script leaves its own last 33 bytes on the stack. -/
theorem hash160_signatory_iff {c : Crypto} {S : Set Bytes} (hinj : Set.InjOn c.hash160 S)
    {nFork nForkNext : Fork} {t : TxnOutType} {vSolutions : List Bytes}
    (hinput : tx.vin[0]? = some input) (hprevout : getOutputFor mapInputs input = some prevout)
    (hsolver : solver prevout.scriptPubKey = some (t, vSolutions)) (ht : t = .pubkeyhash ∨ t = .claim)
    (haccept : verifyScript (blockContext c nFork nForkNext tx 0) input.scriptSig
      prevout.scriptPubKey = true)
    (hkey : getSignatory view mapInputs tx 0 = some key) (hS : key ∈ S)
    (htop : ∀ top, keyOnStack (blockContext c nFork nForkNext tx 0) input.scriptSig = some top →
      top ∈ S)
    :
    vSolutions.getLast? = some (c.hash160 key) ↔
      keyOnStack (blockContext c nFork nForkNext tx 0) input.scriptSig =
        some (last33 input.scriptSig) := by
  obtain ⟨top, sig, s, code, hrun, hhash, -⟩ := checked_of_verifyScript hsolver ht haccept
  have hstack : keyOnStack (blockContext c nFork nForkNext tx 0) input.scriptSig = some top := by
    rw [keyOnStack, hrun]
    rfl
  have hhash' : vSolutions.getLast? = some (c.hash160 top) := hhash
  rw [hstack, hhash', ← getSignatory_of_keyHash hinput hprevout hsolver ht hkey, Option.some_inj,
    Option.some_inj]
  exact hinj.eq_iff (htop top hstack) hS

def ownKey : CPubKey := 0x02 :: List.replicate 32 0x11

/-- A library that takes every signature to be made with `ownKey`, with short hashes. -/
def ownCrypto : Crypto := ⟨List.take 20, id, id, fun key _ _ => key == ownKey⟩

def otherKey : CPubKey := 0x03 :: (List.replicate 31 0x22 ++ [0x75])

def derSignature : Bytes := [0x30, 0x06, 0x02, 0x01, 0x01, 0x02, 0x01, 0x01, 0x01]

def payOwnKey : CTransaction where
  nVersion := 4
  nTime := 0
  vin := []
  vout := [⟨5, [opDup, opHash160] ++ CScript.push [] (ownCrypto.hash160 ownKey) ++
    [opEqualVerify, opCheckSig]⟩]
  nLockTime := 0

/-- A transaction that spends that output with the given input script. -/
def spendOwnKey (scriptSig : CScript) : CTransaction where
  nVersion := 4
  nTime := 0
  vin := [⟨⟨7, 0⟩, scriptSig, 0xffffffff⟩]
  vout := []
  nLockTime := 0

def ownView : TxView := ⟨.missFix2, fun _ => some 9, fun _ => some true⟩

def ownInputs : MapPrevTx := fun h => if h = 7 then some payOwnKey else none

def plainSig : CScript := CScript.push (CScript.push [] derSignature) ownKey

/-- The same, then the first 32 bytes of the other key, pushed and dropped. -/
def droppingSig : CScript := CScript.push plainSig (otherKey.take 32) ++ [0x75]

theorem hash160_signatory_iff_plain : [ownCrypto.hash160 ownKey].getLast? = some (ownCrypto.hash160 ownKey) ↔
      keyOnStack (blockContext ownCrypto .missFix2 .missFix2 (spendOwnKey plainSig) 0) plainSig =
        some (last33 plainSig) :=
  hash160_signatory_iff (S := {ownKey}) (t := .pubkeyhash) (Set.injOn_singleton _ _)
    (show (spendOwnKey plainSig).vin[0]? = some ⟨⟨7, 0⟩, plainSig, 0xffffffff⟩ from rfl)
    (show getOutputFor ownInputs ⟨⟨7, 0⟩, plainSig, 0xffffffff⟩ = payOwnKey.vout.head? from by
      decide +kernel)
    (by decide +kernel) (.inl rfl) (by decide +kernel)
    (show getSignatory ownView ownInputs (spendOwnKey plainSig) 0 = some ownKey by decide +kernel)
    rfl
    (by
      have hstack : keyOnStack (blockContext ownCrypto .missFix2 .missFix2
          (spendOwnKey plainSig) 0) plainSig = some ownKey := by decide +kernel
      intro top htop
      exact (Option.some_inj.mp (hstack.symm.trans htop)).symm)

/-- The other key is the signatory of an input that only the own key signed. -/
theorem signatory_without_signature :
    verifyScript (blockContext ownCrypto .missFix2 .missFix2 (spendOwnKey droppingSig) 0)
      droppingSig ((payOwnKey.vout.map CTxOut.scriptPubKey).headD []) = true ∧
    solver ((payOwnKey.vout.map CTxOut.scriptPubKey).headD []) =
      some (.pubkeyhash, [ownCrypto.hash160 ownKey]) ∧
    getSignatory ownView ownInputs (spendOwnKey droppingSig) 0 = some otherKey ∧
    ownCrypto.hash160 otherKey ≠ ownCrypto.hash160 ownKey := by
  decide +kernel

end Stealth

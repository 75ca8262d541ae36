import Stealth.Chain.Spends
import Stealth.Mempool.Hardness
import Stealth.Wallet.Payload

/-! Feeless transactions of the wallet: mined without the signatures, and signed again with the feework. -/

namespace Stealth

open CScript

variable {tx txSigned : CTransaction} {feework : Feework} {w : FeelessWallet} {nBlockSize : Nat} {c : FeelessTx}

def Feework.vchFeework (feework : Feework) : Bytes :=
  setNum (feework.height % 2 ^ 32).toNat 4 ++ setNum feework.mcost 4 ++ setNum feework.work.toNat 8

def Feework.getScript (feework : Feework) : CScript := push [] feework.vchFeework ++ [opFeework]

def Feework.hasNone (feework : Feework) : Bool := feework.status == .none

/-- A block of the best chain as its record has it; heights fit an `int`. -/
structure BlockStats where
  hashBlock : Uint256
  nHeight : Nat
  nBlockSize : UInt32
  nHeight_lt : nHeight < 2 ^ 31

/-- What `CreateTransaction` reads: the node with its best block and the blocks below it, the coins that are
selected for a value, the script for change, the keys, and the random numbers. `getRandInt n` is
`GetRandInt(n + 1)`. -/
structure FeelessWallet where
  E : ChainEnv
  disk : Disk
  mempool : Map Uint256 CTransaction
  depthInMainChain : CTxIndex → Int
  argon2d : Nat → Bytes → UInt64 → UInt64
  pmemIndexBest : MemChain
  pindexBest : BlockStats
  pprev : List BlockStats
  hashGenesisBlock : Uint256
  selectCoins : Int → Option (List COutPoint × Int)
  scriptChange : CScript
  getRandInt : (n : Nat) → Fin (n + 1)
  signSignature : COutPoint → CTransaction → Nat → Option CScript
  rng : Nat → UInt64

/-- The payees, the data of `OP_RETURN` outputs, and the transaction to fill. -/
structure SendArgs where
  vecSend : List (CScript × Int64)
  pvORData : Option (List Bytes)
  wtxNew : CTransaction

def valueToSend (nValue : Int) : List (CScript × Int64) → Option Int
  | [] => if nValue < 0 then none else some nValue
  | s :: vecSend => if nValue < 0 then none else valueToSend (nValue + s.2.toInt) vecSend

def dataOutput (vchData : Bytes) : Option CTxOut :=
  if vchData.isEmpty || decide (vchData.length > MAX_OP_RETURN_RELAY) then none
  else some ⟨0, push [opReturn] vchData⟩

def SendArgs.vout (args : SendArgs) : Option (List CTxOut) := do
  let vData ← (args.pvORData.getD []).mapM dataOutput
  return args.vecSend.map (fun s => ⟨s.2, s.1⟩) ++ vData

def changePosition (vout : List CTxOut) : Nat → Nat
  | 0 => 0
  | position + 1 =>
    if vout[position + 1]?.any fun txout => txout.nValue != 0 then position + 1 else changePosition vout position

/-- The blocks that were visited, with the one that feework refers to so far. -/
structure LastBlocks where
  nBlocks : UInt32
  nSizeTotal : UInt32
  hashFeework : Uint256
  nFeeworkHeight : Nat

def LastBlocks.visit (nHeightWanted : Int) (last : LastBlocks) (block : BlockStats) : LastBlocks where
  nBlocks := last.nBlocks + 1
  nSizeTotal := last.nSizeTotal + block.nBlockSize
  hashFeework := if nHeightWanted ≤ block.nHeight then block.hashBlock else last.hashFeework
  nFeeworkHeight := if nHeightWanted ≤ block.nHeight then block.nHeight else last.nFeeworkHeight

/-- The loop over the last blocks, down to the deepest one that feework may refer to. -/
def lastBlocks (nHeightWanted nDeepest : Int) (last : LastBlocks) : List BlockStats → LastBlocks
  | [] => last
  | block :: pprev =>
    if nDeepest ≤ block.nHeight then lastBlocks nHeightWanted nDeepest (last.visit nHeightWanted block) pprev
    else last

/-- The size of the block that the memory cost is for: the new block stays within the limit. -/
def feelessBlockSize (nBlockSize nBytes : Nat) : Nat :=
  if nBytes + nBlockSize > FEELESS_MAX_BLOCK_SIZE then FEELESS_MAX_BLOCK_SIZE - nBytes else nBlockSize

/-- A feeless transaction with its feework, the block that it refers to, and the size of the block that its
memory cost is for. -/
structure FeelessTx where
  tx : CTransaction
  feework : Feework
  hashBlock : Uint256
  nBlockSize : Nat

namespace FeelessWallet

variable (w : FeelessWallet)

def feeworkCtx : FeeworkCtx := ⟨w.pmemIndexBest, w.pindexBest.nHeight, w.depthInMainChain, w.argon2d⟩

/-- Change goes to a random place, but not among the outputs without a value. -/
def insertChange (nChange : Int) (pvORData : Option (List Bytes)) (vout : List CTxOut) : Option (List CTxOut) :=
  if 0 < nChange then
    if pvORData.any fun vData => vout.length ≤ vData.length then none
    else
      let position := (w.getRandInt vout.length).val
      let position := if 0 < position ∧ position < vout.length then changePosition vout position else position
      some (vout.insertIdx position ⟨Int64.ofInt nChange, w.scriptChange⟩)
  else some vout

def signInputs : List COutPoint → Nat → CTransaction → Option CTransaction
  | [], _, tx => some tx
  | coin :: coins, nIn, tx => do
    let scriptSig ← w.signSignature coin tx nIn
    signInputs coins (nIn + 1)
      { tx with vin := tx.vin.modify nIn fun txin => { txin with scriptSig := scriptSig } }

/-- `MineFeework` up to its loop: the feework without its nonce, the transaction, and the data to hash. -/
def prepareFeework (nBlockSize : Nat) (txNew : CTransaction) (pblockhash : Option Uint256) (feework : Feework) :
    Except String (Feework × CTransaction × Bytes) :=
  match pblockhash with
  | none => .error "Error: no block hash provided"
  | some hashBlock => do
    let feework := { feework with limit := TX_FEEWORK_LIMIT }
    let feework := checkFeework w.E w.disk w.mempool w.feeworkCtx false 1 .block true false feework txNew
    require feework.hasNone "Error: tx already has feework or is malformed"
    let txNew := txNew.blankSigs
    let ssData := serializeUint256 hashBlock ++ txNew.serialize
    require (!decide (feework.bytes > 1000 * FEEWORK_MAX_MULTIPLIER))
      "Error: tx size exceeds limit for feeless"
    let mcost := getFeeworkHardness (feelessBlockSize nBlockSize feework.bytes) .block feework.bytes
    require (!decide (mcost > FEEWORK_MAX_MCOST)) "Error: memory cost exceeds limit"
    return ({ feework with mcost := mcost }, txNew, ssData)

/-- The loop of `MineFeework`. It ends when a nonce fits; `fuel` bounds the draws. -/
def mineWork (ssData : Bytes) (feework : Feework) : Nat → Nat → Option (Feework × Nat)
  | 0, _ => none
  | fuel + 1, nRounds =>
    let feework := { feework with work := w.rng nRounds }.getFeeworkHash w.argon2d ssData
    if feework.limit < feework.hash then mineWork ssData feework fuel (nRounds + 1)
    else some (feework, nRounds + 1)

def mineFeework (fuel nBlockSize : Nat) (txNew : CTransaction) (pblockhash : Option Uint256) (feework : Feework) :
    Option (Except String (CTransaction × Feework × Nat)) :=
  match w.prepareFeework nBlockSize txNew pblockhash feework with
  | .error strError => some (.error strError)
  | .ok (feework, txNew, ssData) =>
    (w.mineWork ssData feework fuel 0).map fun (feework, nRounds) =>
      .ok ({ txNew with vout := txNew.vout ++ [⟨0, feework.getScript⟩] }, feework, nRounds)

def DEPTH_WANTED : Int := 4

/-- The block that feework refers to and the sizes of the last blocks. -/
def feeworkBlock : LastBlocks :=
  lastBlocks (w.pindexBest.nHeight - (DEPTH_WANTED - 1)) (w.pindexBest.nHeight - FEELESS_MAX_DEPTH)
    ⟨0, 0, w.hashGenesisBlock, 0⟩ (w.pindexBest :: w.pprev)

/-- The transaction before it is signed, and the coins that it spends. -/
def fillTransaction (args : SendArgs) : Option (CTransaction × List COutPoint) := do
  let nValue ← if args.vecSend.isEmpty then none else valueToSend 0 args.vecSend
  let vout ← args.vout
  let (setCoins, nValueIn) ← w.selectCoins nValue
  let vout ← w.insertChange (nValueIn - nValue) args.pvORData vout
  return ({ args.wtxNew with vin := setCoins.map fun coin => ⟨coin, [], 0xffffffff⟩, vout := vout }, setCoins)

def createTransaction (fuel : Nat) (args : SendArgs) (feework : Feework) : Option FeelessTx := do
  let (wtxNew, setCoins) ← w.fillTransaction args
  let last := w.feeworkBlock
  let nBlockSize := (last.nSizeTotal / last.nBlocks).toNat
  let txSigned ← w.signInputs setCoins 0 wtxNew
  -- 27 bytes for the output, and one for it and for every signature
  let nBytes := txSigned.serialize.length + 27 + (1 + txSigned.vin.length)
  let feework := { feework with height := last.nFeeworkHeight, bytes := nBytes }
  match ← w.mineFeework fuel nBlockSize txSigned (some last.hashFeework) feework with
  | .error _ => none
  | .ok (txMined, feework, _) => do
    let wtxNew ← w.signInputs setCoins 0 txMined.blankSigs
    if wtxNew.serialize.length ≥ MAX_BLOCK_SIZE_GEN / 5 then none
    else if feework.bytes < wtxNew.serialize.length then none
    else some ⟨wtxNew, feework, last.hashFeework, feelessBlockSize nBlockSize feework.bytes⟩

end FeelessWallet

def SameButSigs (tx tx' : CTransaction) : Prop := tx.blankSigs = tx'.blankSigs

namespace SameButSigs

variable {tx tx' : CTransaction}

theorem vout (h : SameButSigs tx tx') : tx.vout = tx'.vout := by
  have hblank : tx.blankSigs.vout = tx'.blankSigs.vout := congrArg _ h
  exact hblank

theorem prevouts (h : SameButSigs tx tx') : tx.vin.map CTxIn.prevout = tx'.vin.map CTxIn.prevout := by
  have hvin := congrArg (fun tx => tx.vin.map CTxIn.prevout) h
  simpa only [CTransaction.blankSigs, List.map_map, Function.comp_def] using hvin

end SameButSigs

theorem sameButSigs_blankSigs (tx : CTransaction) : SameButSigs tx.blankSigs tx := by
  simp only [SameButSigs, CTransaction.blankSigs, List.map_map, Function.comp_def]

theorem SameButSigs.withVout {tx' : CTransaction} (h : SameButSigs tx tx') (vout : List CTxOut) :
    SameButSigs { tx with vout := vout } { tx' with vout := vout } := by
  have hblank : { tx.blankSigs with vout := vout } = { tx'.blankSigs with vout := vout } :=
    congrArg (fun tx : CTransaction => { tx with vout := vout }) h
  exact hblank

theorem sameButSigs_sign (tx : CTransaction) (nIn : Nat) (scriptSig : CScript) :
    SameButSigs { tx with vin := tx.vin.modify nIn fun txin => { txin with scriptSig := scriptSig } } tx := by
  have hvin : (tx.vin.modify nIn fun txin => { txin with scriptSig := scriptSig }).map
      (fun txin => ({ txin with scriptSig := [] } : CTxIn)) =
        tx.vin.map fun txin => { txin with scriptSig := [] } := by
    apply List.ext_getElem?
    intro i
    rw [List.getElem?_map, List.getElem?_map, List.getElem?_modify]
    cases tx.vin[i]? with
    | none => rfl
    | some txin =>
      by_cases hi : nIn = i
      · simp [hi]
      · simp [hi]
  rw [SameButSigs, CTransaction.blankSigs, hvin]
  rfl

theorem sameButSigs_signInputs (w : FeelessWallet) : ∀ {coins : List COutPoint} {nIn : Nat}
    {tx tx' : CTransaction}, w.signInputs coins nIn tx = some tx' → SameButSigs tx' tx
  | [], _, _, _, h => by
    cases h
    rfl
  | coin :: coins, nIn, tx, tx', h => by
    obtain ⟨scriptSig, -, h⟩ := Option.bind_eq_some_iff.1 h
    exact (sameButSigs_signInputs w h).trans (sameButSigs_sign tx nIn scriptSig)

theorem isCoinBase_eq_prevouts (tx : CTransaction) : tx.isCoinBase =
      match tx.vin.map CTxIn.prevout with
      | [prevout] => prevout.isNull && decide (1 ≤ tx.vout.length)
      | _ => false := by
  rw [CTransaction.isCoinBase]
  rcases tx.vin with _ | ⟨txin, _ | ⟨txin', vin⟩⟩
  · rfl
  · rfl
  · rfl

theorem solver_nil : solver [] = none := by decide

section
variable {E : ChainEnv} {disk : Disk} {mempool : Map Uint256 CTransaction} {ctx : FeeworkCtx}
  {fRequired fCheckDepth fMiner : Bool} {nBlockSize : Nat} {mode : GetMinFeeMode} {feework : Feework}
  {tx : CTransaction}

theorem feeworkOutput_ne_error_none (vout : List CTxOut) : feeworkOutput vout ≠ .error .none := by
  induction vout with
  | nil => nofun
  | cons txout vout ih =>
    rw [feeworkOutput]
    split
    · nofun
    · split <;> nofun
    · exact ih

theorem feeworkHeight_ne_error_none : feeworkHeight E ctx fCheckDepth feework ≠ .error .none := by
  rw [feeworkHeight]
  split_ifs <;> nofun

theorem feeworkInputs_ne_error_none : feeworkInputs E disk mempool ctx fMiner feework tx ≠ .error .none := by
  rw [feeworkInputs]
  split
  · split
    · nofun
    · split <;> nofun
  · nofun

theorem check_status_ne_none (hfresh : feework.isChecked = false) (mcostIn : Nat) :
    (feework.check mcostIn).status ≠ .none := by
  rw [Feework.check]
  dsimp only
  rw [hfresh, if_neg Bool.false_ne_true]
  split_ifs <;> exact fun heq => by cases heq

theorem of_hasNone (hfresh : feework.isChecked = false)
    (h : (checkFeework E disk mempool ctx fRequired nBlockSize mode fCheckDepth fMiner feework tx).hasNone = true) :
    tx.vout ≠ [] ∧ tx.isCoinBase = false ∧ feeworkOutput tx.vout = .ok none := by
  have hstatus := beq_iff_eq.1 h
  rw [checkFeework] at hstatus
  split at hstatus
  · cases hstatus
  next hvout =>
  split at hstatus
  · cases hstatus
  next hbase =>
  split at hstatus
  · cases hstatus
  refine ⟨fun hnil => hvout (by rw [hnil]; rfl), Bool.eq_false_iff.2 hbase, ?_⟩
  split at hstatus
  · next status hout =>
    cases hstatus
    exact absurd hout (feeworkOutput_ne_error_none tx.vout)
  · next hout => exact hout
  · split at hstatus
    · cases hstatus
    · dsimp only at hstatus
      split at hstatus
      · next hheight =>
        cases hstatus
        exact absurd hheight feeworkHeight_ne_error_none
      · next hinputs =>
        cases hstatus
        exact absurd hinputs feeworkInputs_ne_error_none
      · exact absurd hstatus (check_status_ne_none (by exact hfresh) _)

theorem checkFeework_of_output_none (h : feeworkOutput tx.vout = .ok none) :
    ∃ status, checkFeework E disk mempool ctx fRequired nBlockSize mode fCheckDepth fMiner feework tx =
      { feework with status := status } := by
  rw [checkFeework, h]
  split_ifs <;> exact ⟨_, rfl⟩

end

@[simp] theorem Feework.length_vchFeework (feework : Feework) : feework.vchFeework.length = 16 := by
  simp [vchFeework]

theorem solver_getScript (feework : Feework) : solver feework.getScript = some (.feework, [feework.vchFeework]) := by
  have hlen := feework.length_vchFeework
  refine solver_operation (by omega) (by omega) ?_ (by decide) ?_
  · rw [pushOpcode, hlen]
    decide
  · rw [txTypeIsStandard, List.headD_cons, hlen]
    rfl

theorem extractFeework_vchFeework (hheight : 0 ≤ feework.height ∧ feework.height < 2 ^ 31)
    (hmcost : feework.mcost < 2 ^ 32) (fresh : Feework) : fresh.extractFeework feework.vchFeework =
      { fresh with height := feework.height, mcost := feework.mcost, work := feework.work } := by
  have hlen := feework.length_vchFeework
  have hmod : feework.height % 2 ^ 32 = feework.height := Int.emod_eq_of_lt hheight.1 (by omega)
  have hh : int32Of (beValue (feework.vchFeework.take 4)) = feework.height := by
    rw [Feework.vchFeework, List.append_assoc, List.take_left' (length_setNum _ _), hmod,
      beValue_setNum (by omega), int32Of, Int32.toInt_ofNat_of_lt (by omega)]
    exact Int.toNat_of_nonneg hheight.1
  have hm : beValue ((feework.vchFeework.drop 4).take 4) = feework.mcost := by
    rw [Feework.vchFeework, List.append_assoc, List.drop_left' (length_setNum _ _),
      List.take_left' (length_setNum _ _), beValue_setNum (by omega)]
  have hw : UInt64.ofNat (beValue ((feework.vchFeework.drop 8).take 8)) = feework.work := by
    rw [Feework.vchFeework, List.drop_left' (by simp), List.take_of_length_le (by simp),
      beValue_setNum feework.work.toNat_lt, UInt64.ofNat_toNat]
  rw [Feework.extractFeework, if_pos (by omega), if_pos (by omega), if_pos (by omega), hh, hm, hw]

theorem feeworkOutput_append (feework : Feework) : ∀ {vout : List CTxOut}, feeworkOutput vout = .ok none →
    feeworkOutput (vout ++ [⟨0, feework.getScript⟩]) = .ok (some feework.vchFeework)
  | [], _ => by rw [List.nil_append, feeworkOutput, solver_getScript]; rfl
  | txout :: vout, h => by
    rw [List.cons_append]
    rw [feeworkOutput] at h ⊢
    split at h
    · cases h
    · split at h <;> cases h
    · exact feeworkOutput_append feework h

theorem isCoinStake_eq_false {vch : Option Bytes} (h : feeworkOutput tx.vout = .ok vch) : tx.isCoinStake = false := by
  rw [CTransaction.isCoinStake]
  split
  · next txin vin o o' vout hvin hvout =>
    rw [hvout, feeworkOutput] at h
    have hempty : o.isEmpty = false := by
      rw [CTxOut.isEmpty]
      cases hscript : o.scriptPubKey with
      | nil =>
        rw [hscript, solver_nil] at h
        cases h
      | cons b script => rw [List.isEmpty_cons, Bool.and_false]
    rw [hempty, Bool.and_false]
  · rfl

theorem nFeeworkHeight_lt (nHeightWanted nDeepest : Int) : ∀ (blocks : List BlockStats) {last : LastBlocks},
    last.nFeeworkHeight < 2 ^ 31 → (lastBlocks nHeightWanted nDeepest last blocks).nFeeworkHeight < 2 ^ 31
  | [], _, h => h
  | block :: pprev, last, h => by
    rw [lastBlocks]
    split
    · apply nFeeworkHeight_lt nHeightWanted nDeepest pprev
      rw [LastBlocks.visit]
      dsimp only
      split
      · exact block.nHeight_lt
      · exact h
    · exact h

theorem feeworkBlock_height_lt (w : FeelessWallet) : w.feeworkBlock.nFeeworkHeight < 2 ^ 31 :=
  nFeeworkHeight_lt _ _ _ (Nat.two_pow_pos 31)

theorem mineWork_eq_some {ssData : Bytes} (fuel : Nat) :
    ∀ {feework feework' : Feework} {n nRounds : Nat}, w.mineWork ssData feework fuel n = some (feework', nRounds) →
      feework' = ({ feework with work := feework'.work }).getFeeworkHash w.argon2d ssData ∧
        ¬ feework'.limit < feework'.hash := by
  induction fuel with
  | zero =>
    intro feework feework' n nRounds h
    cases h
  | succ fuel ih =>
    intro feework feework' n nRounds h
    rw [FeelessWallet.mineWork] at h
    split at h
    · have hrest := ih h
      exact hrest
    · next hfits =>
      cases h
      exact ⟨rfl, hfits⟩

/-- `MineFeework` before its loop. -/
structure Prepared (nBlockSize : Nat) (txNew : CTransaction) (hashBlock : Uint256) (feework feework' : Feework)
    (txBlank : CTransaction) (ssData : Bytes) : Prop where
  vout_ne : txNew.vout ≠ []
  notCoinBase : txNew.isCoinBase = false
  output : feeworkOutput txNew.vout = .ok none
  blank : txBlank = txNew.blankSigs
  data : ssData = serializeUint256 hashBlock ++ txNew.blankSigs.serialize
  height : feework'.height = feework.height
  bytes : feework'.bytes = feework.bytes
  limit : feework'.limit = TX_FEEWORK_LIMIT
  mcost : feework'.mcost = getFeeworkHardness (feelessBlockSize nBlockSize feework.bytes) .block feework.bytes
  mcost_le : feework'.mcost ≤ FEEWORK_MAX_MCOST

theorem prepared_of_ok {txNew txBlank : CTransaction} {hashBlock : Uint256}
    {feework' : Feework} {ssData : Bytes} (hfresh : feework.isChecked = false)
    (h : w.prepareFeework nBlockSize txNew (some hashBlock) feework = .ok (feework', txBlank, ssData)) :
    Prepared nBlockSize txNew hashBlock feework feework' txBlank ssData := by
  rw [FeelessWallet.prepareFeework] at h
  dsimp only at h
  generalize hchecked : checkFeework w.E w.disk w.mempool w.feeworkCtx false 1 .block true false
    { feework with limit := TX_FEEWORK_LIMIT } txNew = checked at h
  obtain ⟨hnone, h⟩ := require_bind_eq_ok.1 h
  obtain ⟨hbytes, h⟩ := require_bind_eq_ok.1 h
  obtain ⟨hmcost, h⟩ := require_bind_eq_ok.1 h
  rw [← hchecked] at hnone
  obtain ⟨hvout, hbase, hout⟩ := of_hasNone (by exact hfresh) hnone
  obtain ⟨status, hstatus⟩ : ∃ status, checked = { feework with limit := TX_FEEWORK_LIMIT, status := status } := by
    rw [← hchecked]
    exact checkFeework_of_output_none hout
  subst hstatus
  cases h
  refine ⟨hvout, hbase, hout, rfl, rfl, rfl, rfl, rfl, rfl, ?_⟩
  simpa using hmcost

/-- What is known of a transaction that was built, with the transaction that was signed to see how big it gets. -/
structure Created (w : FeelessWallet) (txSigned : CTransaction) (c : FeelessTx) : Prop where
  vout_ne : txSigned.vout ≠ []
  notCoinBase : txSigned.isCoinBase = false
  output : feeworkOutput txSigned.vout = .ok none
  same : SameButSigs c.tx { txSigned with vout := txSigned.vout ++ [⟨0, c.feework.getScript⟩] }
  height_nonneg : 0 ≤ c.feework.height
  height_lt : c.feework.height < 2 ^ 31
  limit : c.feework.limit = TX_FEEWORK_LIMIT
  mcost : c.feework.mcost = getFeeworkHardness c.nBlockSize .block c.feework.bytes
  mcost_le : c.feework.mcost ≤ FEEWORK_MAX_MCOST
  hash : c.feework.hash =
    w.argon2d c.feework.mcost (serializeUint256 c.hashBlock ++ txSigned.blankSigs.serialize) c.feework.work
  fits : ¬ c.feework.limit < c.feework.hash
  bytes : c.tx.serialize.length ≤ c.feework.bytes

theorem created_of_eq_some {fuel : Nat} {args : SendArgs} (hfresh : feework.isChecked = false)
    (h : w.createTransaction fuel args feework = some c) : ∃ txSigned, Created w txSigned c := by
  obtain ⟨⟨wtxNew, setCoins⟩, -, h⟩ := Option.bind_eq_some_iff.1 h
  obtain ⟨txSigned, -, h⟩ := Option.bind_eq_some_iff.1 h
  obtain ⟨mined, hmine, h⟩ := Option.bind_eq_some_iff.1 h
  refine ⟨txSigned, ?_⟩
  rw [FeelessWallet.mineFeework] at hmine
  split at hmine
  · cases hmine
    cases h
  next prepared txBlank ssData hprepare =>
  obtain ⟨⟨feework', nRounds⟩, hwork, rfl⟩ := Option.map_eq_some_iff.1 hmine
  obtain ⟨hmined, hfits⟩ := mineWork_eq_some fuel hwork
  have hprepared := prepared_of_ok (by exact hfresh) hprepare
  obtain ⟨tx, hsign, h⟩ := Option.bind_eq_some_iff.1 h
  split at h
  · cases h
  split at h
  · cases h
  next hbytes =>
  cases h
  have hsame : SameButSigs tx { txBlank with vout := txBlank.vout ++ [⟨0, feework'.getScript⟩] } :=
    (sameButSigs_signInputs w hsign).trans (sameButSigs_blankSigs _)
  have hheight : feework'.height = w.feeworkBlock.nFeeworkHeight := by
    rw [hmined]
    exact hprepared.height
  have hbytes' : feework'.bytes = prepared.bytes := by rw [hmined]; rfl
  have hmcost : feework'.mcost = prepared.mcost := by rw [hmined]; rfl
  have hlimit : feework'.limit = prepared.limit := by rw [hmined]; rfl
  refine ⟨hprepared.vout_ne, hprepared.notCoinBase, hprepared.output, ?_, ?_, ?_, ?_, ?_, ?_, ?_, hfits,
    Nat.not_lt.1 hbytes⟩
  · rw [hprepared.blank] at hsame
    exact hsame.trans ((sameButSigs_blankSigs txSigned).withVout _)
  · rw [hheight]
    exact Int.natCast_nonneg _
  · rw [hheight]
    exact Int.ofNat_lt.2 (feeworkBlock_height_lt w)
  · exact hlimit.trans hprepared.limit
  · rw [hmcost, hbytes', hprepared.mcost, hprepared.bytes]
  · rw [hmcost]
    exact hprepared.mcost_le
  · have hhash : feework'.hash =
        if FEEWORK_MAX_MCOST < feework'.mcost then TX_FEEWORK_ABSOLUTE_LIMIT
        else w.argon2d feework'.mcost ssData feework'.work := by
      rw [hmined]
      rfl
    rw [hhash, if_neg (by rw [hmcost]; exact Nat.not_lt.2 hprepared.mcost_le), hprepared.data]

def Confirmed (E : ChainEnv) (disk : Disk) (mempool : Map Uint256 CTransaction) (depthInMainChain : CTxIndex → Int)
    (tx : CTransaction) : Prop :=
  ∃ mapInputs, fetchBlockInputs E disk mempool ∅ tx = some mapInputs ∧ ∀ txin ∈ tx.vin,
    ((mapInputs txin.prevout.hash).any fun p => decide (1 ≤ depthInMainChain p.1)) = true

/-- What the checking node finds of a transaction: the block that it refers to is in the chain and not too deep,
the inputs are confirmed, nonce and hash are not zero, and the version is one for feework. -/
structure Referable (E : ChainEnv) (disk : Disk) (mempool : Map Uint256 CTransaction) (ctx : FeeworkCtx)
    (c : FeelessTx) : Prop where
  block : ctx.pmemIndexBlock[(ctx.nHeight - c.feework.height).toNat]?.map CBlockMemIndex.hashBlock = some c.hashBlock
  height_le : c.feework.height ≤ ctx.nHeight
  depth : ctx.nHeight - FEELESS_MAX_DEPTH ≤ c.feework.height
  inputs : Confirmed E disk mempool ctx.depthInMainChain c.tx
  work : c.feework.work ≠ 0
  hash : c.feework.hash ≠ 0
  version : E.env.fTestNet = true ∨ CTransaction.feelessVersion ≤ c.tx.nVersion

instance (E : ChainEnv) (disk : Disk) (mempool : Map Uint256 CTransaction) (depthInMainChain : CTxIndex → Int)
    (tx : CTransaction) : Decidable (Confirmed E disk mempool depthInMainChain tx) :=
  decidable_of_iff (((fetchBlockInputs E disk mempool ∅ tx).any fun mapInputs => tx.vin.all fun txin =>
      (mapInputs txin.prevout.hash).any fun p => decide (1 ≤ depthInMainChain p.1)) = true) (by
    simp only [Confirmed, Option.any_eq_true, List.all_eq_true])

instance (E : ChainEnv) (disk : Disk) (mempool : Map Uint256 CTransaction) (ctx : FeeworkCtx) (c : FeelessTx) :
    Decidable (Referable E disk mempool ctx c) :=
  decidable_of_iff (ctx.pmemIndexBlock[(ctx.nHeight - c.feework.height).toNat]?.map CBlockMemIndex.hashBlock =
      some c.hashBlock ∧ c.feework.height ≤ ctx.nHeight ∧ ctx.nHeight - FEELESS_MAX_DEPTH ≤ c.feework.height ∧
      Confirmed E disk mempool ctx.depthInMainChain c.tx ∧ c.feework.work ≠ 0 ∧ c.feework.hash ≠ 0 ∧
      (E.env.fTestNet = true ∨ CTransaction.feelessVersion ≤ c.tx.nVersion))
    ⟨fun ⟨h1, h2, h3, h4, h5, h6, h7⟩ => ⟨h1, h2, h3, h4, h5, h6, h7⟩,
      fun ⟨h1, h2, h3, h4, h5, h6, h7⟩ => ⟨h1, h2, h3, h4, h5, h6, h7⟩⟩

def FeelessWallet.checker (w : FeelessWallet) (ctx : FeeworkCtx) : FeeworkCtx := { ctx with argon2d := w.argon2d }

section
variable {E : ChainEnv} {disk : Disk} {mempool : Map Uint256 CTransaction} {ctx : FeeworkCtx}

theorem feeworkInputs_of_confirmed (h : Confirmed E disk mempool ctx.depthInMainChain tx)
    (fMiner : Bool) (feework : Feework) : feeworkInputs E disk mempool ctx fMiner feework tx = .ok () := by
  obtain ⟨mapInputs, hfetch, hdepth⟩ := h
  rw [feeworkInputs]
  split
  · rw [hfetch]
    exact if_pos (List.all_eq_true.2 hdepth)
  · rfl

theorem getFeeworkHardness_pos (nBlockSize : Nat) (mode : GetMinFeeMode) (nBytes : Nat) :
    0 < getFeeworkHardness nBlockSize mode nBytes := by
  rw [getFeeworkHardness_eq]
  split
  · decide
  · have hcost := le_raiseCost ((1 + nBytes / 1000) * 256)
      (FEEWORK_BLOCK_PARTS * (nBlockSize + nBytes) / FEELESS_MAX_BLOCK_SIZE - 1)
    omega

theorem Created.mcost_ge (h : Created w txSigned c)
    (hsize : nBlockSize ≤ c.nBlockSize) (mode : GetMinFeeMode) :
    getFeeworkHardness nBlockSize mode c.tx.serialize.length ≤ c.feework.mcost := by
  have hmode : getFeeworkHardness nBlockSize mode c.tx.serialize.length =
      getFeeworkHardness nBlockSize .block c.tx.serialize.length := by
    rw [getFeeworkHardness_eq, getFeeworkHardness_eq]
  rw [hmode, h.mcost]
  exact getFeeworkHardness_mono .block hsize h.bytes

theorem Created.feeworkData_eq (h : Created w txSigned c) (href : Referable E disk mempool ctx c)
    (hheight : feework.height = c.feework.height) : feeworkData (w.checker ctx) feework c.tx =
      serializeUint256 c.hashBlock ++ txSigned.blankSigs.serialize := by
  have hblank : c.tx.blankSigs = { txSigned.blankSigs with vout := txSigned.vout ++ [⟨0, c.feework.getScript⟩] } :=
    h.same
  rw [feeworkData, FeelessWallet.checker, hheight, hblank, h.same.vout, List.head?_drop, href.block,
    List.dropLast_concat]
  rfl

theorem Created.feeworkOutput_eq
    (h : Created w txSigned c) : feeworkOutput c.tx.vout = .ok (some c.feework.vchFeework) := by
  rw [h.same.vout]
  exact feeworkOutput_append c.feework h.output

theorem Created.isCoinBase_eq (h : Created w txSigned c) : c.tx.isCoinBase = false := by
  have hvout : 1 ≤ txSigned.vout.length := List.length_pos_iff.2 h.vout_ne
  have hbase := h.notCoinBase
  rw [isCoinBase_eq_prevouts] at hbase ⊢
  rw [h.same.prevouts, h.same.vout, List.length_append, List.length_singleton]
  rw [decide_eq_true hvout] at hbase
  rw [decide_eq_true (Nat.le_add_left 1 _)]
  exact hbase

theorem Created.isCoinStake_eq (h : Created w txSigned c) : c.tx.isCoinStake = false :=
  isCoinStake_eq_false h.feeworkOutput_eq

theorem Created.check_eq_ok (h : Created w txSigned c) (href : Referable E disk mempool ctx c)
    (hsize : nBlockSize ≤ c.nBlockSize) (mode : GetMinFeeMode) (hfeework : feework =
      { height := c.feework.height, bytes := c.tx.serialize.length, mcost := c.feework.mcost,
        limit := TX_FEEWORK_LIMIT, work := c.feework.work }) :
    ((feework.getFeeworkHash w.argon2d (feeworkData (w.checker ctx) feework c.tx)).check
      (getFeeworkHardness nBlockSize mode feework.bytes)).status = .ok := by
  have hdata : feeworkData (w.checker ctx) feework c.tx = _ := h.feeworkData_eq href (by rw [hfeework])
  have hmcost := h.mcost_ge hsize mode
  have hpos : c.feework.mcost ≠ 0 := by
    rw [h.mcost]
    exact Nat.pos_iff_ne_zero.1 (getFeeworkHardness_pos _ _ _)
  have hhash : (feework.getFeeworkHash w.argon2d (feeworkData (w.checker ctx) feework c.tx)).hash =
      c.feework.hash := by
    rw [hdata, h.hash, hfeework, Feework.getFeeworkHash]
    exact if_neg (Nat.not_lt.2 h.mcost_le)
  have hfits := h.fits
  rw [h.limit] at hfits
  have hfresh : (feework.getFeeworkHash w.argon2d (feeworkData (w.checker ctx) feework c.tx)).isChecked = false := by
    rw [hfeework]
    rfl
  rw [Feework.check]
  dsimp only
  rw [hfresh, hhash, if_neg Bool.false_ne_true]
  subst hfeework
  rw [Feework.getFeeworkHash]
  dsimp only
  rw [if_neg (Nat.not_lt.2 hmcost), if_neg (Nat.not_lt.2 h.mcost_le), if_neg (Int.not_lt.2 h.height_nonneg),
    if_neg href.work, if_neg href.hash, if_neg (by decide), if_neg hpos, if_neg hfits]


/-- A feeless transaction of the wallet is accepted wherever the block that it refers to is in the chain, at a
height where feeless transactions have started, and not too deep, for blocks that are not larger than the wallet
assumed. -/
theorem checkFeework_createTransaction {w : FeelessWallet} {fuel : Nat} {args : SendArgs} {feework : Feework}
    {c : FeelessTx} (hfresh : feework.isChecked = false)
    (hcreated : w.createTransaction fuel args feework = some c)
    (href : Referable E disk mempool ctx c)
    (hfork : E.env.fTestNet = true ∨ .feeless ≤ getFork E.env.fTestNet c.feework.height)
    {nBlockSize : Nat} (hsize : nBlockSize ≤ c.nBlockSize) (fRequired : Bool) (mode : GetMinFeeMode)
    (fCheckDepth fMiner : Bool) :
    (checkFeework E disk mempool (w.checker ctx) fRequired nBlockSize mode fCheckDepth fMiner
      { bytes := c.tx.serialize.length } c.tx).isOK = true := by
  obtain ⟨txSigned, h⟩ := created_of_eq_some hfresh hcreated
  have hmcost : c.feework.mcost < 2 ^ 32 := Nat.lt_of_le_of_lt h.mcost_le (by decide)
  have hvout : c.tx.vout.isEmpty = false := by
    rw [h.same.vout]
    cases txSigned.vout <;> rfl
  have hversion : (!E.env.fTestNet && decide (c.tx.nVersion < CTransaction.feelessVersion)) = false := by
    rcases href.version with htest | hversion
    · rw [htest]
      rfl
    · rw [decide_eq_false (Int32.not_lt.2 hversion), Bool.and_false]
  have hread := extractFeework_vchFeework ⟨h.height_nonneg, h.height_lt⟩ hmcost
    { bytes := c.tx.serialize.length }
  have hheight : feeworkHeight E (w.checker ctx) fCheckDepth
      (Feework.extractFeework { bytes := c.tx.serialize.length } c.feework.vchFeework) = .ok () := by
    have hstarted : (!E.env.fTestNet && decide (getFork E.env.fTestNet c.feework.height < .feeless)) = false := by
      rcases hfork with htest | hfork
      · rw [htest]
        rfl
      · have hnot : ¬ getFork E.env.fTestNet c.feework.height < .feeless := Nat.not_lt.2 hfork
        rw [decide_eq_false hnot, Bool.and_false]
    rw [hread, feeworkHeight, FeelessWallet.checker, hstarted]
    dsimp only
    rw [if_neg Bool.false_ne_true, if_neg (Int.not_lt.2 href.height_le), decide_eq_false (Int.not_lt.2 href.depth),
      Bool.and_false, if_neg Bool.false_ne_true]
  have hinputs : feeworkInputs E disk mempool (w.checker ctx) fMiner
      (Feework.extractFeework { bytes := c.tx.serialize.length } c.feework.vchFeework) c.tx = .ok () :=
    feeworkInputs_of_confirmed href.inputs fMiner _
  rw [checkFeework, hvout, h.isCoinBase_eq, h.isCoinStake_eq, h.feeworkOutput_eq, hversion]
  dsimp only
  rw [hheight, hinputs, hread]
  refine beq_iff_eq.2 (h.check_eq_ok href hsize mode ?_)
  cases mode <;> rfl


end

def statsAt (nHeight : Nat) : BlockStats where
  hashBlock := BitVec.ofNat 256 nHeight
  nHeight := Fin.ofNat (2 ^ 31) nHeight
  nBlockSize := 1000
  nHeight_lt := (Fin.ofNat (2 ^ 31) nHeight).isLt

def chainAt (nHeight : Nat) : MemChain := (List.range 25).map fun i => ⟨BitVec.ofNat 256 (nHeight - i), 1, 0⟩

def coinDisk : Disk
  | .tx _ => some (CTxIndex.unspent ⟨1, 1000, 81⟩ 1)
  | _ => none

def coinWallet (nHeight : Nat) : FeelessWallet where
  E := minedEnv
  disk := coinDisk
  mempool := ∅
  depthInMainChain _ := 5
  argon2d _ _ nNonce := nNonce
  pmemIndexBest := chainAt nHeight
  pindexBest := statsAt nHeight
  pprev := (List.range 24).map fun i => statsAt (nHeight - (i + 1))
  hashGenesisBlock := 0
  selectCoins _ := some ([⟨7, 0⟩], 5000000)
  scriptChange := payScript
  getRandInt _ := 0
  signSignature _ _ _ := some [1, 1]
  rng nRounds := 0xffffffffffffffff - 0xfffffffffffffffe * nRounds.toUInt64

def payOne : SendArgs where
  vecSend := [(payScript, 5000000)]
  pvORData := none
  wtxNew := ⟨4, 0, [], [], 0⟩

def feeworkCtxAt (nHeight : Nat) : FeeworkCtx := ⟨chainAt nHeight, nHeight, fun _ => 5, fun _ _ nNonce => nNonce⟩

/-- Ten blocks after the start of feeless transactions. -/
theorem checkFeework_createTransaction_started : ∃ c,
    (coinWallet 3702310).createTransaction 3 payOne {} = some c ∧
      (checkFeework minedEnv coinDisk ∅ ((coinWallet 3702310).checker (feeworkCtxAt 3702310)) true 1000 .relay true
        false { bytes := c.tx.serialize.length } c.tx).isOK = true := by
  have hrun : ∃ c ∈ (coinWallet 3702310).createTransaction 3 payOne {},
      Referable minedEnv coinDisk ∅ (feeworkCtxAt 3702310) c ∧ 1000 ≤ c.nBlockSize ∧
        .feeless ≤ getFork false c.feework.height := by
    decide +kernel
  obtain ⟨c, hcreated, href, hsize, hfork⟩ := hrun
  exact ⟨c, hcreated, checkFeework_createTransaction rfl hcreated href (.inr hfork) hsize true .relay true false⟩

/-- In the first blocks with feeless transactions the wallet refers to a block before them. -/
theorem createTransaction_too_soon : ∃ c, (coinWallet 3702300).createTransaction 3 payOne {} = some c ∧
      Referable minedEnv coinDisk ∅ (feeworkCtxAt 3702300) c ∧ 1000 ≤ c.nBlockSize ∧
      (checkFeework minedEnv coinDisk ∅ ((coinWallet 3702300).checker (feeworkCtxAt 3702300)) true 1000 .relay true
        false { bytes := c.tx.serialize.length } c.tx).status = .badVersion :=
  exists_of_mem (by decide +kernel)

end Stealth

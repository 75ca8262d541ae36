import Stealth.Qpos.Signed

/-! The qPoS checks of a block: `CheckQPoS` over its transactions with shared containers. -/

namespace Stealth

abbrev TxDB := Uint256 → Option CTransaction

/-- Where `FetchInputs` finds the previous transaction of an input. `mapTestPool` has the ids of
the transactions that a block under construction already has. -/
def findPrev (txdb : TxDB) (mempool : Map Uint256 CTransaction) (mapTestPool : List Uint256)
    (fMiner : Bool) (hash : Uint256) : Option CTransaction :=
  if fMiner && mapTestPool.contains hash then mempool[hash]?
  else
    match txdb hash with
    | some txPrev => some txPrev
    | none => if fMiner then none else mempool[hash]?

def fetchInput (txdb : TxDB) (mempool : Map Uint256 CTransaction) (mapTestPool : List Uint256)
    (fMiner : Bool) (inputsRet : MapPrevTx) (txin : CTxIn) : Option MapPrevTx :=
  if (inputsRet txin.prevout.hash).isSome then some inputsRet
  else
    (findPrev txdb mempool mapTestPool fMiner txin.prevout.hash).map fun txPrev =>
      fun hash => if hash = txin.prevout.hash then some txPrev else inputsRet hash

/-- `FetchInputs`. An index entry has one field for each output, so that it adds nothing to the check
of output numbers. -/
def fetchInputs (txdb : TxDB) (mempool : Map Uint256 CTransaction) (mapTestPool : List Uint256)
    (fMiner : Bool) (inputsRet : MapPrevTx) (tx : CTransaction) : Option MapPrevTx :=
  if tx.isCoinBase then some inputsRet
  else
    (tx.vin.foldlM (fetchInput txdb mempool mapTestPool fMiner) inputsRet).bind fun inputsRet =>
      if tx.vin.all fun txin => (getOutputFor inputsRet txin).isSome then some inputsRet else none

section Fetch

variable {txdb : TxDB} {mempool : Map Uint256 CTransaction} {mapTestPool : List Uint256} {fMiner : Bool}

/-- The inputs of a list that are fetched on top of those already there. -/
def fetched (find : Uint256 → Option CTransaction) (inputs : MapPrevTx) (vin : List CTxIn) : MapPrevTx :=
  fun h => if vin.any fun txin => txin.prevout.hash == h then (inputs h).or (find h) else inputs h

theorem fetchInput_eq (inputs : MapPrevTx) (txin : CTxIn) :
    fetchInput txdb mempool mapTestPool fMiner inputs txin =
      if ((inputs txin.prevout.hash).or
          (findPrev txdb mempool mapTestPool fMiner txin.prevout.hash)).isSome then
        some (fetched (findPrev txdb mempool mapTestPool fMiner) inputs [txin])
      else none := by
  rw [fetchInput]
  cases hin : inputs txin.prevout.hash with
  | some tx =>
    refine congrArg some (funext fun h => ?_)
    by_cases hh : txin.prevout.hash = h
    · subst hh
      simp [fetched, hin]
    · simp [fetched, hh]
  | none =>
    cases hfind : findPrev txdb mempool mapTestPool fMiner txin.prevout.hash with
    | none => simp
    | some tx =>
      refine congrArg some (funext fun h => ?_)
      by_cases hh : txin.prevout.hash = h
      · subst hh
        simp [fetched, hin, hfind]
      · simp [fetched, hh, Ne.symm hh]

theorem foldlM_fetchInput (vin : List CTxIn) : ∀ inputs : MapPrevTx,
    vin.foldlM (fetchInput txdb mempool mapTestPool fMiner) inputs =
      if vin.all fun txin => ((inputs txin.prevout.hash).or
          (findPrev txdb mempool mapTestPool fMiner txin.prevout.hash)).isSome then
        some (fetched (findPrev txdb mempool mapTestPool fMiner) inputs vin)
      else none := by
  induction vin with
  | nil => intro inputs; rfl
  | cons txin vin ih =>
    intro inputs
    rw [List.foldlM_cons, fetchInput_eq, List.all_cons]
    cases ((inputs txin.prevout.hash).or
        (findPrev txdb mempool mapTestPool fMiner txin.prevout.hash)).isSome with
    | false => rfl
    | true =>
      -- fetching one input leaves what can be found
      have hor : ∀ h, (fetched (findPrev txdb mempool mapTestPool fMiner) inputs [txin] h).or
          (findPrev txdb mempool mapTestPool fMiner h) =
            (inputs h).or (findPrev txdb mempool mapTestPool fMiner h) := by
        intro h
        rw [fetched]
        split
        · rw [Option.or_assoc, Option.or_self]
        · rfl
      simp only [if_true, Option.bind_eq_bind, Option.bind_some, ih, hor, Bool.true_and]
      refine congrArg (ite _ · none) (congrArg some (funext fun h => ?_))
      simp only [fetched, List.any_cons, List.any_nil, Bool.or_false]
      by_cases hrest : (vin.any fun txin => txin.prevout.hash == h) = true <;>
        by_cases hhere : (txin.prevout.hash == h) = true <;>
        simp only [hrest, hhere, if_true, if_false, Bool.or_true, Bool.true_or, Bool.or_self,
          Bool.false_eq_true, Option.or_assoc, Option.or_self]

theorem fetched_of_mem {find : Uint256 → Option CTransaction} {inputs : MapPrevTx} {vin : List CTxIn}
    {txin : CTxIn} (hmem : txin ∈ vin) :
    fetched find inputs vin txin.prevout.hash = (inputs txin.prevout.hash).or (find txin.prevout.hash) :=
  if_pos (List.any_eq_true.2 ⟨txin, hmem, by simp⟩)

theorem fetchInputs_eq {inputs : MapPrevTx} {tx : CTransaction} (hbase : tx.isCoinBase = false) :
    fetchInputs txdb mempool mapTestPool fMiner inputs tx =
      if tx.vin.all fun txin => (getOutputFor (fun h =>
          (inputs h).or (findPrev txdb mempool mapTestPool fMiner h)) txin).isSome then
        some (fetched (findPrev txdb mempool mapTestPool fMiner) inputs tx.vin)
      else none := by
  have houtput : ∀ txin ∈ tx.vin,
      getOutputFor (fetched (findPrev txdb mempool mapTestPool fMiner) inputs tx.vin) txin =
        getOutputFor (fun h => (inputs h).or (findPrev txdb mempool mapTestPool fMiner h)) txin := by
    intro txin hmem
    rw [getOutputFor, getOutputFor, fetched_of_mem hmem]
  have hsame : (tx.vin.all fun txin => (getOutputFor
        (fetched (findPrev txdb mempool mapTestPool fMiner) inputs tx.vin) txin).isSome) =
      tx.vin.all fun txin => (getOutputFor (fun h =>
        (inputs h).or (findPrev txdb mempool mapTestPool fMiner h)) txin).isSome := by
    rw [Bool.eq_iff_iff, List.all_eq_true, List.all_eq_true]
    exact forall₂_congr fun txin hmem => by rw [houtput txin hmem]
  rw [fetchInputs, hbase, if_neg Bool.false_ne_true, foldlM_fetchInput]
  by_cases hall : tx.vin.all fun txin => ((inputs txin.prevout.hash).or
      (findPrev txdb mempool mapTestPool fMiner txin.prevout.hash)).isSome
  · rw [if_pos hall, Option.bind_some, hsame]
  · rw [if_neg hall, Option.bind_none, if_neg]
    intro hfound
    refine hall (List.all_eq_true.2 fun txin hmem => ?_)
    have hsome := List.all_eq_true.1 hfound txin hmem
    rw [getOutputFor] at hsome
    exact Option.isSome_of_isSome_bind hsome

end Fetch

theorem getSignatory_congr {view : TxView} {mapInputs mapInputs' : MapPrevTx} {tx : CTransaction}
    (h : ∀ txin ∈ tx.vin, mapInputs txin.prevout.hash = mapInputs' txin.prevout.hash) :
    getSignatory view mapInputs tx 0 = getSignatory view mapInputs' tx 0 := by
  rw [getSignatory, getSignatory]
  cases hvin : tx.vin[0]? with
  | none => rfl
  | some txin => simp only [getOutputFor, h txin (List.mem_of_getElem? hvin)]

/-- `operator==`: the timestamps count only if both transactions have one. -/
def CTransaction.sameAs (a b : CTransaction) : Bool :=
  !(a.hasTimestamp && b.hasTimestamp && a.nTime != b.nTime) &&
    a.nVersion == b.nVersion && a.vin == b.vin && a.vout == b.vout && a.nLockTime == b.nLockTime

/-- What `CheckBlock` fills in for inputs from the same block: the transaction that spends them. -/
def prefillInputs (hash : Bytes → Uint256) (vtx : List CTransaction) (tx : CTransaction) : MapPrevTx :=
  fun h =>
    if tx.vin.any (fun txin => txin.prevout.hash == h) &&
        (vtx.takeWhile fun tx2 => !tx2.sameAs tx).any fun tx2 => tx2.getHash hash == h then some tx
    else none

def MAX_BLOCK_SIGOPS : Nat := 20000

/-- What the checks of a block read besides the registry and the block. -/
structure BlockCtx extends CheckCtx where
  hash : Bytes → Uint256
  txdb : TxDB
  mempool : Map Uint256 CTransaction

section CheckBlock

variable (ctx : BlockCtx) (r : QPRegistry) (hashBlock : Uint256) (nTime : UInt32)
  (pindexPrev : CBlockIndex)

def blockDeets (tx : CTransaction) : List QPTxDetails :=
  getQPTxDetails ctx.env.nfts ctx.hash hashBlock tx

/-- The previous transactions that `CheckBlock` uses for a transaction. -/
def blockInputs (vtx : List CTransaction) (tx : CTransaction) : Option MapPrevTx :=
  if needsInputs (blockDeets ctx hashBlock tx) then
    fetchInputs ctx.txdb ctx.mempool [] false (prefillInputs ctx.hash vtx tx) tx
  else some fun _ => none

def checkBlockTx (vtx : List CTransaction) (c : QposContainers) (tx : CTransaction) :
    Option QposContainers :=
  (blockInputs ctx hashBlock vtx tx).bind fun mapInputs =>
    checkQPoS ctx.toCheckCtx r mapInputs nTime pindexPrev tx (blockDeets ctx hashBlock tx) c

def checkBlockQPoS (vtx : List CTransaction) : Option QposContainers :=
  vtx.foldlM (checkBlockTx ctx r hashBlock nTime pindexPrev vtx) QposContainers.empty

def blockEffects (vtx : List CTransaction) (tx : CTransaction) : Option TxEffects :=
  (blockInputs ctx hashBlock vtx tx).bind fun mapInputs =>
    txEffects ctx.toCheckCtx r mapInputs pindexPrev tx (blockDeets ctx hashBlock tx)

theorem checkBlockQPoS_eq (vtx : List CTransaction) : checkBlockQPoS ctx r hashBlock nTime pindexPrev vtx =
      (vtx.mapM (blockEffects ctx r hashBlock pindexPrev vtx)).bind fun es =>
        es.foldlM (mergeEffects ctx.toCheckCtx r nTime) QposContainers.empty := by
  have hstep : checkBlockTx ctx r hashBlock nTime pindexPrev vtx = fun c tx =>
      (blockEffects ctx r hashBlock pindexPrev vtx tx).bind
        (mergeEffects ctx.toCheckCtx r nTime c) := by
    funext c tx
    rw [checkBlockTx, blockEffects, Option.bind_assoc]
    exact congrArg _ (funext fun mapInputs => checkQPoS_eq ..)
  rw [checkBlockQPoS, hstep, OptionFold.foldlM_bind]

end CheckBlock

end Stealth

import Stealth.Chain.BlockChecks
import Stealth.Lib.ReverseIndex

/-!
The tables of the memory pool and the operations that take transactions out of it. A pointer into `mapTx` is
the key of its entry, and following it can fail.
-/

namespace Stealth

open ReverseIndex

/-- `operator<`: by hash, then by number. -/
instance : Ord COutPoint := ⟨compareLex (compareOn COutPoint.hash) (compareOn COutPoint.n)⟩

instance : Std.TransOrd COutPoint := inferInstanceAs (Std.TransCmp (compareLex _ _))

instance : Std.LawfulEqOrd COutPoint where
  eq_of_compare {a b} h := by
    obtain ⟨hhash, hn⟩ := Ordering.then_eq_eq.1 h
    exact COutPoint.ext (Std.LawfulEqOrd.eq_of_compare hhash) (Std.LawfulEqOrd.eq_of_compare hn)

/-- `CInPoint`: the transaction, by its key in `mapTx`, and the number of the input. -/
abbrev CInPoint := Uint256 × Nat

@[ext] structure CTxMemPool where
  mapTx : Map Uint256 CTransaction := ∅
  mapNextTx : Map COutPoint CInPoint := ∅
  /-- The keys that the claims of the pool are for, by transaction. -/
  mapClaims : Map Uint256 CPubKey := ∅
  /-- The names that the purchases of the pool take, by transaction. -/
  mapRegistrations : Map Uint256 (List Bytes) := ∅
  /-- The transactions with good feework, by the height that it refers to. -/
  mapFeeless : Map Int (Std.ExtTreeSet Uint256) := ∅

def CTransaction.prevouts (tx : CTransaction) : List COutPoint := tx.vin.map CTxIn.prevout

def FEELESS_MAX_DEPTH : Int := 24

namespace CTxMemPool

def addUnchecked (pool : CTxMemPool) (h : Uint256) (tx : CTransaction) : CTxMemPool :=
  { pool with
    mapTx := pool.mapTx.insert h tx
    mapNextTx := pool.mapNextTx.insertMany (tx.prevouts.zipIdx.map fun p => (p.1, (h, p.2))) }

def addFeeless (pool : CTxMemPool) (nHeight : Int) (txid : Uint256) : CTxMemPool :=
  { pool with
    mapFeeless := pool.mapFeeless.insert nHeight ((pool.mapFeeless.getD nHeight ∅).insert txid) }

def eraseTx (pool : CTxMemPool) (h : Uint256) (tx : CTransaction) : CTxMemPool :=
  { pool with
    mapNextTx := tx.prevouts.foldl (fun m o => m.erase o) pool.mapNextTx
    mapTx := pool.mapTx.erase h }

/-- What `remove` erases whether or not the transaction is in the pool. -/
def forget (pool : CTxMemPool) (h : Uint256) : CTxMemPool :=
  { pool with
    mapClaims := pool.mapClaims.erase h
    mapRegistrations := pool.mapRegistrations.erase h }

section Remove

variable (hash : Bytes → Uint256)

def removeOne (pool : CTxMemPool) (tx : CTransaction) : CTxMemPool :=
  let h := tx.getHash hash
  (if pool.mapTx.contains h then pool.eraseTx h tx else pool).forget h

/-- The loop of `remove` over the outputs, one output: its spender is removed. -/
def removeSpender (recurse : CTxMemPool → CTransaction → Option CTxMemPool) (h : Uint256)
    (pool : CTxMemPool) (i : Nat) : Option CTxMemPool :=
  match pool.mapNextTx[(⟨h, UInt32.ofNat i⟩ : COutPoint)]? with
  | none => some pool
  | some it => pool.mapTx[it.1]?.bind (recurse pool)

def removeTree : Nat → CTxMemPool → CTransaction → Option CTxMemPool
  | 0, _, _ => none
  | nDepth + 1, pool, tx =>
    let h := tx.getHash hash
    if pool.mapTx.contains h then
      ((List.range tx.vout.length).foldlM (removeSpender (removeTree nDepth) h) pool).map
        fun pool => (pool.eraseTx h tx).forget h
    else some (pool.forget h)

/-- `remove`. A chain of different transactions of the pool is not longer than the pool. -/
def remove (fRecursive : Bool) (pool : CTxMemPool) (tx : CTransaction) : Option CTxMemPool :=
  if fRecursive then removeTree hash (pool.mapTx.size + 1) pool tx else some (removeOne hash pool tx)

/-- `removeConflicts`: what spends an input of the transaction and is not the transaction goes, with
everything that depends on it. -/
def removeConflicts (pool : CTxMemPool) (tx : CTransaction) : Option CTxMemPool :=
  tx.vin.foldlM (fun (pool : CTxMemPool) txin =>
    match pool.mapNextTx[txin.prevout]? with
    | none => some pool
    | some it => pool.mapTx[it.1]?.bind fun txConflict =>
      if txConflict.sameAs tx then some pool else remove hash true pool txConflict) pool

/-- The loops of `removeOldFeeless` and `removeInvalidPurchases` over the ids they have collected. -/
def removeIds (pool : CTxMemPool) (ids : List Uint256) : CTxMemPool :=
  ids.foldl (fun (pool : CTxMemPool) txid =>
    match pool.mapTx[txid]? with
    | none => pool
    | some tx => removeOne hash pool tx) pool

/-- The heights that `removeOldFeeless` clears, with their transactions. -/
def oldFeeless (pool : CTxMemPool) (nBestHeight : Int) : List (Int × Std.ExtTreeSet Uint256) :=
  pool.mapFeeless.toList.takeWhile fun e => !decide (nBestHeight - e.1 ≤ FEELESS_MAX_DEPTH)

def removeOldFeeless (nBestHeight : Int) (pool : CTxMemPool) : CTxMemPool × Nat :=
  let setHeightToRemove := (pool.oldFeeless nBestHeight).map Prod.fst
  let setTxToRemove : Std.ExtTreeSet Uint256 :=
    (pool.oldFeeless nBestHeight).foldl (fun ids e => ids.insertMany e.2.toList) ∅
  let pool := removeIds hash pool setTxToRemove.toList
  ({ pool with mapFeeless := setHeightToRemove.foldl (fun m nHeight => m.erase nHeight) pool.mapFeeless },
    setTxToRemove.size)

/-- A purchase that the registry no longer takes: the test of `removeInvalidPurchases`. -/
def purchasesAreInvalid (ctx : CheckCtx) (r : QPRegistry) (pindexBest : CBlockIndex)
    (tx : CTransaction) : Bool :=
  match checkPurchases ctx r (nextStakerPrice ctx r pindexBest) tx with
  | none => true
  | some mapPurchases => mapPurchases.toList.any fun e => (r.aliasIsAvailableInternal e.1).isNone

/-- `removeInvalidPurchases`, with the number of ids it has collected. -/
def removeInvalidPurchases (ctx : CheckCtx) (r : QPRegistry) (pindexBest : CBlockIndex)
    (pool : CTxMemPool) : CTxMemPool × Nat :=
  let setToRemove :=
    (pool.mapTx.toList.filter fun e => purchasesAreInvalid ctx r pindexBest e.2).map Prod.fst
  (removeIds hash pool setToRemove, setToRemove.length)

end Remove

def clear (pool : CTxMemPool) : CTxMemPool := { pool with mapTx := ∅, mapNextTx := ∅ }

end CTxMemPool

end Stealth

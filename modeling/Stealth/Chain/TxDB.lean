import Stealth.Lib.KeyValue
import Stealth.Lib.Lru
import Stealth.Chain.CheckBlock

/-!
The transaction database: handles with a batch each, and one cache of block index records for all of them,
which takes every write at once.
-/

namespace Stealth

structure CDiskTxPos where
  nFile : UInt32
  nBlockPos : UInt32
  nTxPos : UInt32
  deriving DecidableEq, Repr

namespace CDiskTxPos

def null : CDiskTxPos := ⟨0xffffffff, 0, 0⟩

def isNull (pos : CDiskTxPos) : Bool := pos.nFile == 0xffffffff

end CDiskTxPos

/-- Where a transaction is, and where each of its outputs is spent. -/
structure CTxIndex where
  pos : CDiskTxPos
  vSpent : List CDiskTxPos
  deriving DecidableEq, Repr

/-- The index entry of a transaction with the given number of unspent outputs. -/
def CTxIndex.unspent (pos : CDiskTxPos) (nOutputs : Nat) : CTxIndex :=
  ⟨pos, List.replicate nOutputs CDiskTxPos.null⟩

/-- The record of a block, as far as the chain logic reads it. -/
structure CDiskBlockIndex extends CBlockIndex where
  hashNext : Uint256
  nFile : UInt32
  nBlockPos : UInt32
  nVersion : Int32
  nFlags : UInt32
  nMint : Int
  bnChainTrust : Int
  deriving DecidableEq

namespace CDiskBlockIndex

def BLOCK_PROOF_OF_STAKE : UInt32 := 1
def BLOCK_QPOS : UInt32 := 8
def BLOCK_EXTENDED_SER : UInt32 := 0x80000000

def isProofOfWork (r : CDiskBlockIndex) : Bool := r.nFlags &&& (BLOCK_PROOF_OF_STAKE ||| BLOCK_QPOS) == 0

def setExtendedSerialization (r : CDiskBlockIndex) : CDiskBlockIndex :=
  { r with nFlags := r.nFlags ||| BLOCK_EXTENDED_SER }

def setNext (r : CDiskBlockIndex) (hash : Uint256) : CDiskBlockIndex := { r with hashNext := hash }

end CDiskBlockIndex

/-- The keys of the database. The address index is kept as byte strings. -/
inductive DBKey where
  | tx (hash : Uint256)
  | blockIndex (hash : Uint256)
  | hashBestChain
  | bnBestInvalidTrust
  | addr (key : Bytes)
  deriving DecidableEq

def DBKey.Value : DBKey → Type
  | .tx _ => CTxIndex
  | .blockIndex _ => CDiskBlockIndex
  | .hashBestChain => Uint256
  | .bnBestInvalidTrust => Int
  | .addr _ => Bytes

abbrev Disk := KeyValue.Disk DBKey.Value

abbrev CTxDB := KeyValue.Store DBKey.Value

def Disk.txIndex (disk : Disk) (hash : Uint256) : Option CTxIndex := disk (.tx hash)

def Disk.blockIndex (disk : Disk) (hash : Uint256) : Option CDiskBlockIndex :=
  (disk (.blockIndex hash) : Option CDiskBlockIndex).map CDiskBlockIndex.setExtendedSerialization

theorem blockIndex_update_of_ne (disk : Disk) {hash : Uint256} {k : DBKey} (hk : .blockIndex hash ≠ k)
    (v : Option k.Value) : Disk.blockIndex (Function.update disk k v) hash = disk.blockIndex hash :=
  congrArg (Option.map CDiskBlockIndex.setExtendedSerialization) (Function.update_of_ne hk v disk)

theorem blockIndex_update_self (disk : Disk) (hash : Uint256) (r : CDiskBlockIndex) :
    Disk.blockIndex (Function.update disk (.blockIndex hash) (some r)) hash =
      some r.setExtendedSerialization := by
  have hself : Function.update disk (.blockIndex hash) (some r) (.blockIndex hash) =
      (some r : Option CDiskBlockIndex) :=
    Function.update_self (DBKey.blockIndex hash) _ disk
  exact congrArg (Option.map CDiskBlockIndex.setExtendedSerialization) hself

def MAX_CACHE_SIZE : Nat := 30000

/-- A handle with the cache that it shares with all others. Time stamps increase, so that the order of
use is the order of the lookup set. -/
structure BlockDB where
  txdb : CTxDB
  mapCache : Lru.Cache Uint256 CDiskBlockIndex

namespace BlockDB

variable (s : BlockDB)

/-- The record that a read through the cache gives, over the store as some handle sees it. -/
def lookup (disk : Disk) (hash : Uint256) : Option CDiskBlockIndex :=
  Lru.through s.mapCache disk.blockIndex hash

def touch (hash : Uint256) (r : CDiskBlockIndex) : BlockDB :=
  { s with mapCache := Lru.use MAX_CACHE_SIZE s.mapCache hash r }

def readWith (disk : Disk) (hash : Uint256) : Option (CDiskBlockIndex × BlockDB) :=
  (s.lookup disk hash).map fun r => (r, s.touch hash r)

variable {s} in
theorem readWith_eq_some {disk : Disk} {hash : Uint256} {r : CDiskBlockIndex} {s' : BlockDB}
    (h : s.readWith disk hash = some (r, s')) : s.lookup disk hash = some r ∧ s' = s.touch hash r := by
  obtain ⟨r', hr', heq⟩ := Option.map_eq_some_iff.1 h
  cases heq
  exact ⟨hr', rfl⟩

def readDiskBlockIndex (hash : Uint256) : Option (CDiskBlockIndex × BlockDB) := s.readWith s.txdb.view hash

def readDiskBlockIndexLocal (hash : Uint256) : Option (CDiskBlockIndex × BlockDB) :=
  s.readWith s.txdb.disk hash

def writeDiskBlockIndex (hash : Uint256) (r : CDiskBlockIndex) : BlockDB :=
  ({ s with txdb := s.txdb.put (.blockIndex hash) (some r) } : BlockDB).touch hash r

/-- `WriteDiskBlockIndex` with a handle of its own, around the batch of the caller. -/
def writeDiskBlockIndexLocal (hash : Uint256) (r : CDiskBlockIndex) : BlockDB :=
  ({ s with txdb := s.txdb.putThrough (.blockIndex hash) (some r) } : BlockDB).touch hash r

def put (k : DBKey) (v : Option k.Value) : BlockDB := { s with txdb := s.txdb.put k v }

end BlockDB

end Stealth

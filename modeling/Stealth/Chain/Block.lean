import Stealth.Chain.Transaction
import Stealth.Lib.Merkle

/-!
Blocks: the header, the strings that are hashed for a block, and the Merkle tree over the ids of its
transactions.
-/

namespace Stealth

open Encoding

@[ext] structure CBlock where
  nVersion : Int32
  hashPrevBlock : Uint256
  hashMerkleRoot : Uint256
  nTime : UInt32
  nBits : UInt32
  nNonce : UInt32
  nHeight : Int32
  nStakerID : UInt32
  vtx : List CTransaction
  vchBlockSig : Bytes
  deriving DecidableEq, Repr

namespace CBlock

def qposVersion : Int32 := 8

def isQuantumProofOfStake (b : CBlock) : Bool := decide (0 < b.nStakerID)

def isProofOfStake (b : CBlock) : Bool :=
  match b.vtx with
  | _ :: tx :: _ => tx.isCoinStake
  | _ => false

def isProofOfWork (b : CBlock) : Bool := !(b.isProofOfStake || b.isQuantumProofOfStake)

def genesisHeader (b : CBlock) : Bytes :=
  serializeInt32 b.nVersion ++ (serializeUint256 b.hashPrevBlock ++
    (serializeUint256 b.hashMerkleRoot ++ (serializeUInt32 b.nTime ++ (serializeUInt32 b.nBits ++
      serializeUInt32 b.nNonce))))

def qposHeader (b : CBlock) : Bytes :=
  b.genesisHeader ++ (serializeInt32 b.nHeight ++ serializeUInt32 b.nStakerID)

def serialize (b : CBlock) : Bytes :=
  (if qposVersion ≤ b.nVersion then b.qposHeader else b.genesisHeader) ++
    (serializeVector CTransaction.serialize b.vtx ++ serializeScript b.vchBlockSig)

def nftHeight (fTestNet : Bool) : Int := if fTestNet then 4768119 else 3695200

section Hash

variable (fTestNet : Bool) (hash9 : Bytes → Uint256) (hashOfNftHashes : Uint256)

def hashed (b : CBlock) : Bytes :=
  if b.nHeight.toInt = nftHeight fTestNet then
    serializeUint256 hashOfNftHashes ++ serializeUint256 (hash9 b.qposHeader)
  else if b.nVersion < qposVersion then b.genesisHeader
  else b.qposHeader

def getHash (b : CBlock) : Uint256 := hash9 (b.hashed fTestNet hash9 hashOfNftHashes)

end Hash

section Tree

variable (hash : Bytes → Uint256)

def nodeBytes (p : Uint256 × Uint256) : Bytes := serializeUint256 p.1 ++ serializeUint256 p.2

def combine (a b : Uint256) : Uint256 := hash (nodeBytes (a, b))

def ids (b : CBlock) : List Uint256 := b.vtx.map (·.getHash hash)

def treePairs (b : CBlock) : List (Uint256 × Uint256) :=
  Merkle.allPairs (combine hash) b.vtx.length (b.ids hash)

/-- `BuildMerkleTree`: the last node of the tree, or zero without transactions. -/
def buildMerkleTree (b : CBlock) : Uint256 :=
  (Merkle.root (combine hash) b.vtx.length (b.ids hash)).getD 0

end Tree

theorem length_genesisHeader (b : CBlock) : b.genesisHeader.length = 80 := by
  simp [genesisHeader, serializeInt32, serializeUint256, serializeUInt32]

theorem length_qposHeader (b : CBlock) : b.qposHeader.length = 88 := by
  simp [qposHeader, length_genesisHeader, serializeInt32, serializeUInt32]

/-- The fields of the first header form. -/
structure SameHeader (a b : CBlock) : Prop where
  nVersion : a.nVersion = b.nVersion
  hashPrevBlock : a.hashPrevBlock = b.hashPrevBlock
  hashMerkleRoot : a.hashMerkleRoot = b.hashMerkleRoot
  nTime : a.nTime = b.nTime
  nBits : a.nBits = b.nBits
  nNonce : a.nNonce = b.nNonce

theorem splits_genesisHeader {a b : CBlock} {s t : Bytes}
    (heq : a.genesisHeader ++ s = b.genesisHeader ++ t) : SameHeader a b ∧ s = t := by
  simp only [genesisHeader, List.append_assoc] at heq
  obtain ⟨hversion, heq⟩ := splitsOn_serializeInt32 _ _ _ _ trivial trivial heq
  obtain ⟨hprev, heq⟩ := splitsOn_serializeUint256 _ _ _ _ trivial trivial heq
  obtain ⟨hroot, heq⟩ := splitsOn_serializeUint256 _ _ _ _ trivial trivial heq
  obtain ⟨htime, heq⟩ := splitsOn_serializeUInt32 _ _ _ _ trivial trivial heq
  obtain ⟨hbits, heq⟩ := splitsOn_serializeUInt32 _ _ _ _ trivial trivial heq
  obtain ⟨hnonce, heq⟩ := splitsOn_serializeUInt32 _ _ _ _ trivial trivial heq
  exact ⟨⟨hversion, hprev, hroot, htime, hbits, hnonce⟩, heq⟩

theorem sameHeader_of_qposHeader_eq {a b : CBlock} (heq : a.qposHeader = b.qposHeader) : SameHeader a b :=
  (splits_genesisHeader heq).1

theorem sameHeader_of_genesisHeader_eq {a b : CBlock} (heq : a.genesisHeader = b.genesisHeader) :
    SameHeader a b :=
  (splits_genesisHeader (by rw [heq] : a.genesisHeader ++ [] = b.genesisHeader ++ [])).1

end CBlock

end Stealth

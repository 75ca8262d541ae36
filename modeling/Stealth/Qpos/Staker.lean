import Stealth.Qpos.Power
import Stealth.Qpos.TxDetails

/-!
A registered staker: its keys, its block statistics and its enabled and qualified states.
-/

namespace Stealth

def QP_STAKER_RECENT_BLOCKS : Nat := 4096
def QP_NOOB_BLOCKS : UInt32 := 8192
def QP_STAKER_REENABLE_WAIT_M : Int := 8640
def QP_STAKER_REENABLE_WAIT_T : Int := 6

def getStakerMaxMisses (fTestNet : Bool) (nHeight : Int) : Nat :=
  if fTestNet then (if getFork fTestNet nHeight < .missFix then 8 else 512) else 512

abbrev QPRecentBlocks := BitVec 4096

def countBits {w : Nat} (b : BitVec w) : Nat :=
  ((List.range w).filter fun i => b.getLsbD i).length

/-- Shift the history by one assignment and record its outcome in the lowest bit. -/
def shiftIn {w : Nat} (b : BitVec w) (hit : Bool) : BitVec w :=
  (b <<< 1) ||| (if hit then 1 else 0)

structure QPStaker where
  pubkeyOwner : CPubKey
  pubkeyManager : CPubKey
  pubkeyDelegate : CPubKey
  pubkeyController : CPubKey
  bRecentBlocks : QPRecentBlocks
  bPrevRecentBlocks : QPRecentBlocks
  hashBlockCreated : Uint256
  hashTxCreated : Uint256
  nOutCreated : Int
  nPrice : Int
  nBlocksProduced : UInt32
  nBlocksMissed : UInt32
  nBlocksDocked : UInt32
  nBlocksAssigned : UInt32
  nBlocksSeen : UInt32
  hashBlockMostRecent : Uint256
  nPrevBlocksMissed : UInt32
  nPcmDelegatePayout : UInt32
  nHeightDisabled : Int
  fQualified : Bool
  nTotalEarned : Int
  sAlias : Bytes
  mapMeta : Map Bytes Bytes
  deriving DecidableEq

namespace QPStaker

/-- The constructor from a purchase: a new staker starts disabled, qualified, and as if it had hit
every block. -/
def ofDetails (deet : QPTxDetails) (owner : CPubKey) : QPStaker where
  pubkeyOwner := owner
  pubkeyManager := owner
  pubkeyDelegate := owner
  pubkeyController := owner
  bRecentBlocks := BitVec.allOnes 4096
  bPrevRecentBlocks := BitVec.allOnes 4096
  hashBlockCreated := deet.hash
  hashTxCreated := deet.txid
  nOutCreated := deet.n
  nPrice := deet.value
  nBlocksProduced := 0
  nBlocksMissed := 0
  nBlocksDocked := 0
  nBlocksAssigned := 0
  nBlocksSeen := 0
  hashBlockMostRecent := 0
  nPrevBlocksMissed := 0
  nPcmDelegatePayout := 0
  nHeightDisabled := -1
  fQualified := true
  nTotalEarned := 0
  sAlias := []
  mapMeta := ∅

variable (s : QPStaker)

def getRecentBlocksMissed : UInt32 :=
  min s.nBlocksMissed (UInt32.ofNat (QP_STAKER_RECENT_BLOCKS - countBits s.bRecentBlocks))

def getPrevRecentBlocksMissed : UInt32 :=
  min s.nPrevBlocksMissed (UInt32.ofNat (QP_STAKER_RECENT_BLOCKS - countBits s.bPrevRecentBlocks))

def getNetBlocks : UInt32 :=
  if s.nBlocksDocked ≥ s.nBlocksProduced then 0 else s.nBlocksProduced - s.nBlocksDocked

/-- The weight is the integer root of the net blocks plus the squared seniority; a staker with no
net blocks weighs its seniority. -/
def getWeight (nSeniority : UInt32) : UInt32 :=
  if s.getNetBlocks > 0 then uisqrt (s.getNetBlocks + nSeniority * nSeniority) else nSeniority

def isEnabled : Bool := s.fQualified && s.nHeightDisabled == 0

def isDisabled : Bool := s.nHeightDisabled != 0 || !s.fQualified

def isQualified : Bool := s.fQualified

def isDisqualified : Bool := !s.fQualified

def shouldBeDisabled (fTestNet : Bool) (s : QPStaker) (nHeight : Int) : Bool :=
  let nMaxMiss := getStakerMaxMisses fTestNet nHeight
  ((List.range nMaxMiss).all fun i => !s.bRecentBlocks.getLsbD i) ||
    (List.range (nMaxMiss / 2)).all fun i => !s.bPrevRecentBlocks.getLsbD i

def shouldBeDisqualified (nPrevRecentBlocksMissedMax : UInt32) : Bool :=
  s.getPrevRecentBlocksMissed > nPrevRecentBlocksMissedMax ||
    (s.nBlocksSeen > QP_NOOB_BLOCKS &&
      (s.getNetBlocks == 0 || s.getRecentBlocksMissed > UInt32.ofNat (QP_STAKER_RECENT_BLOCKS / 2)))

def updatePrevRecentBlocks (fPrevDidProduceBlock : Bool) : QPStaker :=
  { s with
    bPrevRecentBlocks := shiftIn s.bPrevRecentBlocks fPrevDidProduceBlock
    nPrevBlocksMissed :=
      if fPrevDidProduceBlock then s.nPrevBlocksMissed else s.nPrevBlocksMissed + 1 }

/-- The owner and delegate shares of a block reward, with the payout capped at one hundred
percent. -/
def rewardShares (nBlockReward : Int) : Int × Int :=
  let pcm := min 100000 s.nPcmDelegatePayout
  if pcm = 0 ∨ s.pubkeyDelegate = s.pubkeyOwner then (nBlockReward, 0)
  else
    let nDelegateReward := (nBlockReward * pcm.toNat).tdiv 100000
    (nBlockReward - nDelegateReward, nDelegateReward)

def producedBlock (hashBlock : Uint256) (nBlockReward : Int) (fPrevDidProduceBlock : Bool) : QPStaker :=
  { s with
    nBlocksProduced := s.nBlocksProduced + 1
    nBlocksAssigned := s.nBlocksAssigned + 1
    hashBlockMostRecent := hashBlock
    bRecentBlocks := shiftIn s.bRecentBlocks true
    nPcmDelegatePayout := min 100000 s.nPcmDelegatePayout
    nTotalEarned := s.nTotalEarned + nBlockReward }.updatePrevRecentBlocks fPrevDidProduceBlock

def missedBlock (fPrevDidProduceBlock : Bool) (nFork : Fork) : QPStaker :=
  { s with
    nBlocksAssigned := s.nBlocksAssigned + 1
    nBlocksMissed := s.nBlocksMissed + 1
    nBlocksDocked := if Fork.missFix ≤ nFork then s.nBlocksDocked + 1 else s.nBlocksDocked
    bRecentBlocks := shiftIn s.bRecentBlocks false }.updatePrevRecentBlocks fPrevDidProduceBlock

def sawBlock : QPStaker := { s with nBlocksSeen := s.nBlocksSeen + 1 }

/-- The conversion of a signed payout to the unsigned argument of `SetDelegatePayout`. -/
def payoutOfInt (pcm : Int) : UInt32 := UInt32.ofNat (pcm % 2 ^ 32).toNat

/-- A payout above one hundred percent is capped and reported as a failure. -/
def setDelegatePayout (pcm : Int) : QPStaker × Bool :=
  if payoutOfInt pcm > 100000 then ({ s with nPcmDelegatePayout := 100000 }, false)
  else ({ s with nPcmDelegatePayout := payoutOfInt pcm }, true)

def getEnableHeight (fTestNet : Bool) (s : QPStaker) (nHeight : Int) : Int :=
  if fTestNet then
    if getFork fTestNet nHeight < .missFix then 0
    else s.nHeightDisabled + QP_STAKER_REENABLE_WAIT_T
  else if s.nHeightDisabled = 0 then 0
  else s.nHeightDisabled + QP_STAKER_REENABLE_WAIT_M

def canBeEnabled (fTestNet : Bool) (s : QPStaker) (nHeight : Int) : Bool :=
  nHeight ≥ s.getEnableHeight fTestNet nHeight

def enable : Option QPStaker :=
  if s.isDisqualified then none else some { s with nHeightDisabled := 0 }

def disable (nHeight : Int) : QPStaker := { s with nHeightDisabled := nHeight }

/-- `std::numeric_limits<int>::max() / 2` marks a disqualified staker as disabled for good. -/
def disqualify : QPStaker :=
  { s with nHeightDisabled := 1073741823, fQualified := false }

def requalify (fEnable : Bool) : QPStaker :=
  { s with nHeightDisabled := if fEnable then 0 else -1, fQualified := true }

def setAlias (sAliasIn : Bytes) : Option QPStaker :=
  if s.sAlias ≠ [] then none else some { s with sAlias := sAliasIn }

def setMeta (key value : Bytes) : QPStaker :=
  { s with mapMeta := if value = [] then s.mapMeta.erase key else s.mapMeta.insert key value }

def resetDocked : QPStaker := { s with nBlocksDocked := 0 }

end QPStaker

end Stealth

import Stealth.Qpos.Staker
import Stealth.Qpos.Queue

/-!
The state of the qPoS registry and its queries. What it takes from outside is in `QPEnv`, apart from the
local clock.
-/

namespace Stealth

/-- What the registry reads from its surroundings. -/
structure QPEnv where
  fTestNet : Bool
  hashGenesisBlock : Uint256
  nfts : NftTable
  /-- The first four bytes of the rehashed block hash, as an unsigned number. -/
  queueSeed : Uint256 → UInt32
  /-- The value `shuffler(i + 1)` returns for position `i` under a seed. -/
  shuffler : UInt32 → Nat → Nat
  minPicoPower : UInt64
  /-- The value the uninitialised bound of `DisqualifyStakerIfNecessary` holds when no other staker
  is enabled. -/
  uninitMissedMax : UInt32

/-- The fields of a block index that the registry and the chain logic read. -/
structure CBlockIndex where
  hashBlock : Uint256
  nHeight : Int
  nTime : UInt32
  nStakerID : Nat
  nMoneySupply : Int
  vDeets : List QPTxDetails
  deriving DecidableEq

/-- The fields of a registry that are written and read, in the order of the source. -/
structure QPRegistry.Serialized where
  nRound : UInt32
  nRoundSeed : UInt32
  mapStakers : Map Nat QPStaker
  mapBalances : Map CPubKey Int
  mapLastClaim : Map CPubKey Int
  mapActive : Map CPubKey Int
  mapAliases : Map Bytes (Nat × Bytes)
  queue : QPQueue
  queuePrev : QPQueue
  bRecentBlocks : BitVec 32768
  nIDCounter : Nat
  nIDSlotPrev : Nat
  fCurrentBlockWasProduced : Bool
  fPrevBlockWasProduced : Bool
  nBlockHeight : Int
  hashBlock : Uint256
  hashBlockLastSnapshot : Uint256
  hashLastBlockPrev1Queue : Uint256
  hashLastBlockPrev2Queue : Uint256
  hashLastBlockPrev3Queue : Uint256
  powerRoundPrev : QPPowerRound
  powerRoundCurrent : QPPowerRound
  mapNftOwners : Map Nat Nat
  mapNftOwnerLookup : Map Nat Nat
  deriving DecidableEq

structure QPRegistry extends QPRegistry.Serialized where
  nHeightExitedReplay : Int
  fShouldRollback : Bool
  mapCertifiedNodes : Map Nat Bytes
  deriving DecidableEq

namespace QPRegistry

variable (env : QPEnv) (r : QPRegistry)

/-- The default constructor. -/
def empty : QPRegistry where
  nRound := 0
  nRoundSeed := 0
  mapStakers := ∅
  mapBalances := ∅
  mapLastClaim := ∅
  mapActive := ∅
  mapAliases := ∅
  queue := .null
  queuePrev := .null
  bRecentBlocks := 0
  nIDCounter := 0
  nIDSlotPrev := 0
  fCurrentBlockWasProduced := false
  fPrevBlockWasProduced := true
  nBlockHeight := 0
  hashBlock := env.hashGenesisBlock
  hashBlockLastSnapshot := env.hashGenesisBlock
  hashLastBlockPrev1Queue := env.hashGenesisBlock
  hashLastBlockPrev2Queue := env.hashGenesisBlock
  hashLastBlockPrev3Queue := env.hashGenesisBlock
  powerRoundPrev := .null
  powerRoundCurrent := .null
  mapNftOwners := ∅
  mapNftOwnerLookup := ∅
  nHeightExitedReplay := 0
  fShouldRollback := false
  mapCertifiedNodes := ∅

/-- `SetNull` resets every field except the two character ownership maps. -/
def setNull : QPRegistry :=
  { empty env with mapNftOwners := r.mapNftOwners, mapNftOwnerLookup := r.mapNftOwnerLookup }

def isInReplayMode : Bool := r.nHeightExitedReplay == 0

def outOfReplayMode : Bool := r.nHeightExitedReplay != 0

/-- `GetNumberOf`: the stakers for which a predicate of the staker holds. -/
def getNumberOf (f : QPStaker → Bool) : Nat :=
  (r.mapStakers.toList.filter fun e => f e.2).length

def getNumberEnabledInternal : Nat := r.getNumberOf QPStaker.isEnabled

def getNumberQualifiedInternal : Nat := r.getNumberOf QPStaker.isQualified

def getStakerInternal (nID : Nat) : Option QPStaker :=
  if 0 < nID ∧ nID ≤ r.nIDCounter then r.mapStakers[nID]? else none

def isQualifiedStaker (nStakerID : Nat) : Bool :=
  (r.getStakerInternal nStakerID).any QPStaker.isQualified

def canEnableStaker (nStakerID : Nat) (nHeight : Int) : Bool :=
  (r.getStakerInternal nStakerID).any fun s => s.canBeEnabled env.fTestNet nHeight

/-- The body shared by `GetOwnerKey`, `GetManagerKey`, `GetDelegateKey` and `GetControllerKey`. -/
def getKeyWith (key : QPStaker → CPubKey) (r : QPRegistry) (nStakerID : Nat) : Option CPubKey :=
  match r.getStakerInternal nStakerID with
  | none => none
  | some s => if s.isDisqualified then none else some (key s)

def getOwnerKey : QPRegistry → Nat → Option CPubKey := getKeyWith QPStaker.pubkeyOwner
def getManagerKey : QPRegistry → Nat → Option CPubKey := getKeyWith QPStaker.pubkeyManager
def getDelegateKey : QPRegistry → Nat → Option CPubKey := getKeyWith QPStaker.pubkeyDelegate
def getControllerKey : QPRegistry → Nat → Option CPubKey := getKeyWith QPStaker.pubkeyController

def seniority (nID : Nat) : UInt32 := UInt32.ofNat (r.nIDCounter + 1 - nID)

def getStakerWeight (nStakerID : Nat) : Option UInt32 :=
  match r.getStakerInternal nStakerID with
  | none => none
  | some s => if s.isDisqualified then none else some (s.getWeight (r.seniority nStakerID))

def getPicoPowerInternal : UInt64 :=
  let w := (r.powerRoundPrev.getWeight + r.powerRoundCurrent.getWeight).toUInt64
  let t := (r.powerRoundPrev.getTotalWeight + r.powerRoundCurrent.getTotalWeight).toUInt64
  if t = 0 then 0 else w * TRIL / t

def hasEnoughPower : Bool :=
  r.powerRoundPrev.isEmpty || r.getPicoPowerInternal ≥ env.minPicoPower

/-- Whether a key can claim a value at a time, where `now` is the local clock. A claim time that is
not positive stands for the clock. -/
def canClaimInternal (now : Int) (r : QPRegistry) (key : CPubKey) (nValue : Int) (nClaimTime : Int) :
    Bool :=
  if nClaimTime > now then false
  else
    let nClaimTime := if nClaimTime ≤ 0 then now else nClaimTime
    match r.mapBalances[key]? with
    | none => false
    | some nBalance =>
      if nValue > nBalance then false
      else
        match r.mapLastClaim[key]? with
        | none => true
        | some nLast => env.fTestNet || !(decide (nClaimTime < nLast + QP_MIN_SECS_PER_CLAIM))

def canClaim (now : Int) (r : QPRegistry) (key : CPubKey) (nValue : Int) : Bool :=
  r.canClaimInternal env now key nValue 0

def getBalanceForPubKey (key : CPubKey) : Option Int := r.mapBalances[key]?

def getIDForAlias (sAlias : Bytes) : Option Nat :=
  (r.mapAliases[toLowercaseSafe sAlias]?).map Prod.fst

def getAliasForID (nID : Nat) : Option Bytes :=
  (r.getStakerInternal nID).map QPStaker.sAlias

/-- The lower case key of an alias that is valid and not yet registered. -/
def aliasIsAvailableInternal (sAlias : Bytes) : Option Bytes :=
  if !aliasIsValid sAlias then none
  else if r.mapAliases.contains (toLowercaseSafe sAlias) then none
  else some (toLowercaseSafe sAlias)

def isNftKey (sCharKey : Bytes) : Bool := env.nfts.mapNftLookup.contains sCharKey

/-- Before `XST_FORKPURCHASE3` the availability of a character was looked up in the map that is
keyed by staker. -/
def nftIsAvailableInternal (nID : Nat) : Bool :=
  env.nfts.mapNfts.contains nID &&
    !(if getFork env.fTestNet r.nBlockHeight < .purchase3 then r.mapNftOwners.contains nID
      else r.mapNftOwnerLookup.contains nID)

/-- The character key of an available character; a character with an empty key is unavailable. -/
def nftKeyIfAvailable (nID : Nat) : Option Bytes :=
  if r.nftIsAvailableInternal env nID then
    match env.nfts.mapNfts[nID]? with
    | none => none
    | some nft => if nft.strCharKey = [] then none else some nft.strCharKey
  else none

/-- The identifier of the available character with a given lower case key. -/
def nftIDIfAvailable (sCharKey : Bytes) : Option Nat :=
  if sCharKey ≠ toLowercaseSafe sCharKey then none
  else
    let nID := env.nfts.mapNftLookup.getD sCharKey 0
    let nID := if r.mapNftOwnerLookup.contains nID then 0 else nID
    if nID = 0 then none else some nID

def timestampIsValid (now : Int) (r : QPRegistry) (nStakerID : Nat) (nTime : UInt32) : Bool :=
  match r.queue.getWindowForID nStakerID with
  | none => false
  | some (first, last) => !(nTime < first) && !(nTime > last) && !(decide ((nTime.toNat : Int) > now))

def exitReplayModeInternal : QPRegistry :=
  { r with nHeightExitedReplay := r.nBlockHeight }

def enterReplayMode : QPRegistry :=
  if r.outOfReplayMode ∧ r.nBlockHeight > r.nHeightExitedReplay + (1 + r.queue.size) then
    { r with nHeightExitedReplay := 0 }
  else r

/-- `CheckSynced`: leave replay mode once power suffices and the clock is in the current slot. -/
def checkSynced (now : Int) (r : QPRegistry) : QPRegistry :=
  if r.isInReplayMode && r.hasEnoughPower env &&
      r.queue.timeIsInCurrentSlotWindow (UInt32.ofNat (now % 2 ^ 32).toNat) then
    r.exitReplayModeInternal
  else r

end QPRegistry

end Stealth

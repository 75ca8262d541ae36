import Stealth.Qpos.Advance

/-!
`UpdateOnNewBlock`: the operations of a block and the reward of its producer. `.error` carries the registry
as far as an operation came.
-/

namespace Stealth.QPRegistry

variable (env : QPEnv) (r : QPRegistry)

/-- A key that no staker uses starts afresh: its balance is zero and its claim clock restarts. -/
def activatePubKey (key : CPubKey) (pindex : CBlockIndex) : QPRegistry :=
  let n := r.mapActive.getD key 0
  { r with
    mapBalances := if n = 0 then r.mapBalances.insert key 0 else r.mapBalances
    mapLastClaim := if n = 0 then r.mapLastClaim.insert key pindex.nTime.toNat else r.mapLastClaim
    mapActive := r.mapActive.insert key (n + 1) }

def deactivatePubKey (key : CPubKey) : Option QPRegistry :=
  match r.mapActive[key]? with
  | none => none
  | some n => if n < 1 then none else some { r with mapActive := r.mapActive.insert key (n - 1) }

def setStakerNft (nStakerID nNftID : Nat) : Option QPRegistry :=
  if !r.mapStakers.contains nStakerID then none
  else if !env.nfts.mapNfts.contains nNftID then none
  else if r.mapNftOwners.contains nStakerID then none
  else if r.mapNftOwnerLookup.contains nNftID then none
  else
    some { r with
      mapNftOwners := r.mapNftOwners.insert nStakerID nNftID
      mapNftOwnerLookup := r.mapNftOwnerLookup.insert nNftID nStakerID }

/-- `mapStakers[nID].SetAlias`. -/
def setAliasAt (nID : Nat) (sAlias : Bytes) : Option QPRegistry :=
  match r.mapStakers[nID]? with
  | none => none
  | some s => (s.setAlias sAlias).map fun s' => r.putStaker nID s'

/-- Assign a character and then set the alias; a failure leaves the registry as far as it came. -/
def takeNft (nID nNftID : Nat) (sAlias : Bytes) : Except QPRegistry QPRegistry :=
  match r.setStakerNft env nID nNftID with
  | none => .error r
  | some r' =>
    match r'.setAliasAt nID sAlias with
    | none => .error r'
    | some r'' => .ok r''

def nextFreeNft : Option Nat :=
  ((env.nfts.mapNfts.toList.map Prod.fst).find? fun nNftID => !r.mapNftOwnerLookup.contains nNftID)

def nickname (nNftID : Nat) : Bytes :=
  (env.nfts.mapNfts[nNftID]?.map QPNft.strNickname).getD []

/-- The three ways a new staker gets its character: by identifier, by alias, or the next free. -/
def assignNft (nID : Nat) (deet : QPTxDetails) (sKey : Bytes) : Except QPRegistry QPRegistry :=
  if deet.id ≠ 0 then
    match r.nftKeyIfAvailable env deet.id with
    | none => .error r
    | some sKeyNft =>
      if sKeyNft ≠ sKey then .error r else r.takeNft env nID deet.id (nickname env deet.id)
  else if isNftKey env sKey then
    match r.nftIDIfAvailable env sKey with
    | none => .error r
    | some nNftID => r.takeNft env nID nNftID (nickname env nNftID)
  else
    match r.nextFreeNft env with
    | none => .error r
    | some nNftID => r.takeNft env nID nNftID deet.sAlias

/-- The staker a purchase describes, or `none` when its keys or payout are malformed. -/
def stakerOfPurchase (deet : QPTxDetails) : Option QPStaker :=
  match deet.keys with
  | [] => none
  | owner :: rest =>
    let staker := QPStaker.ofDetails deet owner
    if deet.t = .purchase1 then (if rest = [] then some staker else none)
    else if deet.t = .purchase4 then
      match rest with
      | [manager, delegate, controller] =>
        let staker :=
          { staker with
            pubkeyManager := manager, pubkeyDelegate := delegate
            pubkeyController := controller }
        let (staker, fOK) := staker.setDelegatePayout deet.pcm
        if fOK then some staker else none
      | [manager, controller] =>
        let staker :=
          { staker with
            pubkeyManager := manager, pubkeyDelegate := manager
            pubkeyController := controller }
        let (staker, fOK) := staker.setDelegatePayout deet.pcm
        if fOK then some staker else none
      | _ => none
    else none

def applyPurchase (deet : QPTxDetails) (pindex : CBlockIndex) : Except QPRegistry QPRegistry :=
  match stakerOfPurchase deet with
  | none => .error r
  | some staker =>
    match r.aliasIsAvailableInternal deet.sAlias with
    | none => .error r
    | some sKey =>
      let nID := r.nIDCounter + 1
      let r' := { r with nIDCounter := nID }.putStaker nID staker
      match r'.assignNft env nID deet sKey with
      | .error r'' => .error r''
      | .ok r'' =>
        let r'' :=
          if env.fTestNet ∧ getFork env.fTestNet pindex.nHeight < .missFix then
            r''.activatePubKey staker.pubkeyOwner pindex
          else r''
        let r'' := r''.activatePubKey staker.pubkeyManager pindex
        let r'' := r''.activatePubKey staker.pubkeyDelegate pindex
        .ok { r'' with mapAliases := r''.mapAliases.insert sKey (nID, deet.sAlias) }

def moveReference (keyOld keyNew : CPubKey) (pindex : CBlockIndex) : Option QPRegistry :=
  if keyNew = keyOld then some r
  else (r.deactivatePubKey keyOld).map fun r' => r'.activatePubKey keyNew pindex

/-- The owner key is reference counted on the test network only, and there without failing. -/
def moveOwnerReference (keyOld keyNew : CPubKey) (pindex : CBlockIndex) : QPRegistry :=
  if keyNew ≠ keyOld ∧ env.fTestNet then
    let r' := (r.deactivatePubKey keyOld).getD r
    if getFork env.fTestNet pindex.nHeight < .missFix then r'.activatePubKey keyNew pindex else r'
  else r

def applySetKey (deet : QPTxDetails) (pindex : CBlockIndex) : Except QPRegistry QPRegistry :=
  match r.mapStakers[deet.id]? with
  | none => .error r
  | some s =>
    if s.isDisqualified then .error r
    else
      match deet.keys with
      | [keyNew] =>
        match deet.t with
        | .setOwner =>
          .ok ((r.moveOwnerReference env s.pubkeyOwner keyNew pindex).putStaker deet.id
            { s with pubkeyOwner := keyNew })
        | .setManager =>
          match r.moveReference s.pubkeyManager keyNew pindex with
          | none => .error r
          | some r' => .ok (r'.putStaker deet.id { s with pubkeyManager := keyNew })
        | .setDelegate =>
          let (s', fOK) := s.setDelegatePayout deet.pcm
          if !fOK then .error (r.putStaker deet.id s')
          else
            match r.moveReference s.pubkeyDelegate keyNew pindex with
            | none => .error (r.putStaker deet.id s')
            | some r' => .ok (r'.putStaker deet.id { s' with pubkeyDelegate := keyNew })
        | .setController => .ok (r.putStaker deet.id { s with pubkeyController := keyNew })
        | _ => .error r
      | _ => .error r

def applySetState (deet : QPTxDetails) (nHeight : Int) : Except QPRegistry QPRegistry :=
  match r.mapStakers[deet.id]? with
  | none => .error r
  | some s =>
    if s.isDisqualified then .error r
    else if deet.t = .enable then
      if s.canBeEnabled env.fTestNet r.nBlockHeight then
        match s.enable with
        | none => .error r
        | some s' => .ok (r.putStaker deet.id s')
      else .ok r
    else if deet.t = .disable then .ok (r.putStaker deet.id (s.disable nHeight))
    else .error r

def applyClaim (now : Int) (r : QPRegistry) (deet : QPTxDetails) (nBlockTime : Int) :
    Except QPRegistry QPRegistry :=
  if deet.t ≠ .claim then .error r
  else
    match deet.keys with
    | [key] =>
      if r.canClaimInternal env now key deet.value nBlockTime then
        .ok { r with
          mapLastClaim := r.mapLastClaim.insert key nBlockTime
          mapBalances := r.mapBalances.insert key (r.mapBalances.getD key 0 - deet.value) }
      else .error r
    | _ => .error r

def applySetMeta (deet : QPTxDetails) : Except QPRegistry QPRegistry :=
  if deet.t ≠ .setMeta then .error r
  else
    match r.mapStakers[deet.id]? with
    | none => .error r
    | some s =>
      if s.isDisqualified then .error r
      else .ok (r.putStaker deet.id (s.setMeta deet.metaKey deet.metaValue))

def applyOpCode : TxnOutType → Nat
  | .purchase1 | .purchase4 => 1
  | .setOwner | .setManager | .setDelegate | .setController => 2
  | .enable | .disable => 3
  | .claim => 4
  | .setMeta => 5
  | _ => 6

def applyOp (now : Int) (pindex : CBlockIndex) (r : QPRegistry) (deet : QPTxDetails) :
    Except QPRegistry QPRegistry :=
  match deet.t with
  | .purchase1 | .purchase4 => r.applyPurchase env deet pindex
  | .setOwner | .setManager | .setDelegate | .setController => r.applySetKey env deet pindex
  | .enable | .disable => r.applySetState env deet pindex.nHeight
  | .claim => r.applyClaim env now deet pindex.nTime.toNat
  | .setMeta => r.applySetMeta deet
  | _ => .error r

/-- Apply operations in order; a failure reports its code and the registry it leaves. -/
def applyOps (env : QPEnv) (now : Int) (pindex : CBlockIndex) :
    QPRegistry → List QPTxDetails → Except (Nat × QPRegistry) QPRegistry
  | r, [] => .ok r
  | r, deet :: rest =>
    match r.applyOp env now pindex deet with
    | .error r' => .error (applyOpCode deet.t, r')
    | .ok r' => applyOps env now pindex r' rest

/-- `GetPrevRecentBlocksMissedMax` over the other enabled stakers, in wrapping arithmetic; `none`
when there is no other. -/
def getPrevRecentBlocksMissedMax (nID : Nat) : Option UInt32 :=
  let vMissed :=
    (r.mapStakers.toList.filter fun e => decide (e.1 ≠ nID) && e.2.isEnabled).map
      fun e => e.2.getPrevRecentBlocksMissed
  let n := UInt32.ofNat vMissed.length
  if n = 0 then none
  else
    let mean := vMissed.foldl (· + ·) 0 / n
    let sumOfDeltaSq := vMissed.foldl
      (fun sum m => let delta := if mean > m then mean - m else m - mean
                    sum + delta * delta) 0
    let stdev := uisqrt (sumOfDeltaSq / n)
    some (max 16 (mean + stdev * 8))

def disqualifyStakerIfNecessary (nID : Nat) (s : QPStaker) : QPRegistry :=
  if env.fTestNet then r
  else if s.shouldBeDisqualified ((r.getPrevRecentBlocksMissedMax nID).getD env.uninitMissedMax) then
    match r.getStakerInternal nID with
    | none => r
    | some s' => if s'.isDisqualified then r else r.putStaker nID s'.disqualify
  else r

/-- `mapBalances[key] += nValue`. -/
def credit (key : CPubKey) (nValue : Int) : QPRegistry :=
  { r with mapBalances := r.mapBalances.insert key (r.mapBalances.getD key 0 + nValue) }

def stakerProducedBlock (pindex : CBlockIndex) (nReward : Int) : Option QPRegistry :=
  let nID := pindex.nStakerID
  match r.getStakerInternal nID with
  | none => none
  | some s =>
    if s.isDisqualified then none
    else
      let (nOwnerReward, nDelegateReward) := s.rewardShares nReward
      let s' := s.producedBlock pindex.hashBlock nReward r.fPrevBlockWasProduced
      let r' := (r.pushPower nID s true).putStaker nID s'
      let r' :=
        if env.fTestNet ∧ getFork env.fTestNet r'.nBlockHeight < .missFix then
          r'.credit s'.pubkeyOwner nOwnerReward
        else r'.credit s'.pubkeyManager nOwnerReward
      let r' := if nDelegateReward > 0 then r'.credit s'.pubkeyDelegate nDelegateReward else r'
      let r' :=
        if getFork env.fTestNet r'.nBlockHeight < .reinstate then
          r'.disqualifyStakerIfNecessary env nID s'
        else r'
      some ((r'.recordSlot true).setProduced true)

def updateCertifiedNodesList : QPRegistry :=
  { r with
    mapCertifiedNodes :=
      r.mapStakers.toList.foldl
        (fun m e =>
          if e.2.isDisqualified then m
          else
            match e.2.mapMeta[metaKeyCertifiedNode]? with
            | none => m
            | some sValue => m.insert e.1 sValue) ∅ }

def sawBlockAll : QPRegistry :=
  { r with mapStakers := r.mapStakers.map fun _ s => if s.isQualified then s.sawBlock else s }

def getQPoSReward (pindexPrev : CBlockIndex) : Int := pindexPrev.nMoneySupply.tdiv (6311520 * 100)

/-- The one-time corrections at `XST_FORKREINSTATE` and `XST_FORKMISSFIX2`. -/
def crossFork (nFork : Fork) (r : QPRegistry) : QPRegistry :=
  let nForkRegistry := getFork env.fTestNet r.nBlockHeight
  if nForkRegistry < .missFix2 then
    if Fork.missFix2 ≤ nFork then
      { r with mapStakers := r.mapStakers.map fun _ s => s.resetDocked }
    else if nForkRegistry < .reinstate ∧ Fork.reinstate ≤ nFork then
      { r with
        mapStakers := r.mapStakers.map fun _ s =>
          (if s.isDisqualified then s.requalify true else s).resetDocked }
    else r
  else r

/-- How `UpdateOnNewBlock` ends: it returns true or false, or it ends the process because an
operation of a block that is not just checked failed. -/
inductive Verdict where
  | accepted | rejected | exited
  deriving DecidableEq, Repr

def applyBlockOps (now : Int) (fJustCheck : Bool) (pindex : CBlockIndex) (r : QPRegistry) :
    Except (QPRegistry × Verdict) QPRegistry :=
  if Fork.purchase ≤ getFork env.fTestNet pindex.nHeight then
    match r.applyOps env now pindex pindex.vDeets with
    | .error (_, r') => .error (r', if fJustCheck then .rejected else .exited)
    | .ok r' => .ok r'
  else .ok r

def produceBlock (pindexPrev pindex : CBlockIndex) (r : QPRegistry) : Except QPRegistry QPRegistry :=
  if Fork.qpos ≤ getFork env.fTestNet pindex.nHeight then
    match r.queue.getSlotForID pindex.nStakerID with
    | none => .error r
    | some nStakerSlot =>
      if nStakerSlot ≠ r.queue.nCurrentSlot then .error r
      else if r.fCurrentBlockWasProduced && r.outOfReplayMode then .error r
      else
        match r.stakerProducedBlock env pindex (getQPoSReward pindexPrev) with
        | none => .error r
        | some r' =>
          let (q, n) := r'.queue.slotProduced nStakerSlot
          if n = 0 then .error (r'.setQueue q)
          else .ok (r'.setQueue q).sawBlockAll.updateCertifiedNodesList
  else .ok r

def setBlock (pindex : CBlockIndex) : QPRegistry :=
  { r with nBlockHeight := pindex.nHeight, hashBlock := pindex.hashBlock }

def finishBlock (now : Int) (fJustCheck : Bool) (pindexPrev pindex : CBlockIndex) (r : QPRegistry) :
    QPRegistry × Verdict :=
  match r.applyBlockOps env now fJustCheck pindex with
  | .error e => e
  | .ok r =>
    match r.produceBlock env pindexPrev pindex with
    | .error r' => (r', .rejected)
    | .ok r' => (r'.setBlock pindex, .accepted)

/-- `UpdateOnNewBlock`. `pindexPrev` is the index record of the previous block, or `pindex` itself
for a block without one; `now` is the local clock. -/
def updateOnNewBlock (now : Int) (nSnapshotType : SnapshotType) (fJustCheck : Bool)
    (pindexPrev pindex : CBlockIndex) (db : SnapshotDB) (r : QPRegistry) :
    SnapshotDB × QPRegistry × Verdict :=
  let r := r.crossFork env (getFork env.fTestNet pindex.nHeight)
  match r.updateOnNewTimeInternal env pindex.nTime pindexPrev nSnapshotType db with
  | (db', r', false) => (db', r', .rejected)
  | (db', r', true) => (db', r'.finishBlock env now fJustCheck pindexPrev pindex)

/-- The registry before the operations of a block: past the fork corrections and the snapshot. -/
def beforeAdvance (nSnapshotType : SnapshotType) (p b : CBlockIndex) (db : SnapshotDB) (r : QPRegistry)
    : QPRegistry :=
  ((r.crossFork env (getFork env.fTestNet b.nHeight)).takeSnapshot env nSnapshotType p db).2

theorem updateOnNewBlock_snd (now : Int) (nSnapshotType : SnapshotType) (fJustCheck : Bool)
    (p b : CBlockIndex) (db : SnapshotDB) (r : QPRegistry) :
    (r.updateOnNewBlock env now nSnapshotType fJustCheck p b db).2 =
      match (r.beforeAdvance env nSnapshotType p b db).advanceTime env b.nTime p with
      | (r₁, false) => (r₁, .rejected)
      | (r₁, true) => r₁.finishBlock env now fJustCheck p b := by
  rcases hadv : (r.beforeAdvance env nSnapshotType p b db).advanceTime env b.nTime p with ⟨r₁, _ | _⟩
  all_goals
    rw [beforeAdvance] at hadv
    simp only [updateOnNewBlock, updateOnNewTimeInternal, hadv]

end Stealth.QPRegistry

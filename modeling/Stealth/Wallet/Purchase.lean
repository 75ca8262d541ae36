import Stealth.Wallet.Payload
import Stealth.Qpos.Names

/-!
Purchases: from the arguments of the wallet to the staker in the registry, where the roles of manager and
delegate are exchanged.
-/

namespace Stealth

open CScript QPRegistry

variable {sAlias : Bytes} {a : PurchaseArgs} {nNftID : Nat}

structure PurchaseArgs where
  sAlias : Bytes
  vchOwnerKey : Bytes
  vchManagerKey : Bytes
  vchDelegateKey : Bytes
  vchControllerKey : Bytes
  nPrice : Int64
  nPcm : UInt32

/-- The keys and the payout after the owner key; before `XST_FORKMISSFIX` there is no manager key. -/
def PurchaseArgs.roles (w : WalletCtx) (a : PurchaseArgs) : Bytes :=
  a.vchDelegateKey ++
    (if .missFix ≤ getFork w.env.fTestNet w.nBestHeight then a.vchManagerKey else []) ++
    a.vchControllerKey ++ setNum a.nPcm.toNat 4

def PurchaseArgs.payload (w : WalletCtx) (a : PurchaseArgs) : Bytes :=
  setNum a.nPrice.toUInt64.toNat 8 ++ a.vchOwnerKey ++ (if a.nPcm > 0 then a.roles w else []) ++
    padTo 16 a.sAlias

def PurchaseArgs.payloadSize (w : WalletCtx) (a : PurchaseArgs) : Nat :=
  if a.nPcm > 0 then
    if .missFix ≤ getFork w.env.fTestNet w.nBestHeight then 57 + 103 else 57 + 70
  else 57

/-- The checks of the keys that a purchase of type `TX_PURCHASE4` adds. -/
def checkRoles (a : PurchaseArgs) : Except String Unit :=
  if a.nPcm > 0 then do
    require (a.vchManagerKey.length == 33) "PurchaseStaker(): Manager pubkey is not compressed"
    require (a.vchDelegateKey.length == 33) "PurchaseStaker(): Delegate pubkey is not compressed"
    require (a.vchControllerKey.length == 33) "PurchaseStaker(): Controller pubkey is not compressed"
    require (!decide (a.nPcm > 100000)) "PurchaseStaker(): Payout too high"
  else return ()

def walletAlias (w : WalletCtx) (sAlias : Bytes) : Except String Bytes :=
  match w.pregistryMain.aliasIsAvailableInternal sAlias with
  | none => .error "PurchaseStaker(): Alias is not available"
  | some sLC => .ok sLC

def purchaseStaker (w : WalletCtx) (txid : Bytes) (a : PurchaseArgs) : Except String CScript := do
  checkQPoSEssentials w txid 0 a.vchOwnerKey
  let sLC ← walletAlias w a.sAlias
  require (!isNftKey w.env sLC || (w.pregistryMain.nftIDIfAvailable w.env sLC).isSome)
    "PurchaseStaker(): NFT is not available"
  checkRoles a
  require (!decide (a.nPrice.toInt < getStakerPrice w.env.fTestNet
      (UInt32.ofNat w.pregistryMain.getNumberQualifiedInternal) w.pindexBest.nMoneySupply
      (getFork w.env.fTestNet (w.pindexBest.nHeight + 1))))
    "PurchaseStaker(): Price too low"
  require ((a.payload w).length == a.payloadSize w)
    "PurchaseStaker(): TSNH scriptPurchase length mismatch"
  return push [] (a.payload w) ++ [if a.nPcm > 0 then opPurchase4 else opPurchase1]

def PurchaseArgs.RolesChecked (a : PurchaseArgs) : Prop :=
  a.nPcm > 0 → a.vchManagerKey.length = 33 ∧ a.vchDelegateKey.length = 33 ∧
    a.vchControllerKey.length = 33 ∧ a.nPcm ≤ 100000

/-- What is known of the arguments of a script. -/
structure PurchaseArgs.Checked (a : PurchaseArgs) : Prop where
  sAlias : aliasIsValid a.sAlias = true
  owner : a.vchOwnerKey.length = 33
  roles : a.RolesChecked

theorem aliasIsValid_cases (h : aliasIsValid sAlias = true) :
    sAlias.length ≤ 16 ∧ ∃ c rest, sAlias = c :: rest ∧ (isLowerByte c || isUpperByte c) = true ∧
      (rest.all fun c => isLowerByte c || isUpperByte c || isDigitByte c) = true := by
  unfold aliasIsValid at h
  split at h
  · cases h
  · next hlen =>
    refine ⟨Nat.not_lt.1 fun hlong => hlen (.inr hlong), ?_⟩
    split at h
    · cases h
    · next c rest =>
      obtain ⟨hfirst, hrest⟩ := Bool.and_eq_true_iff.1 h
      exact ⟨c, rest, rfl, hfirst, hrest⟩

theorem length_payload {w : WalletCtx} (halias : a.sAlias.length ≤ 16)
    (hroles : a.RolesChecked) : (a.payload w).length + 33 = a.payloadSize w + a.vchOwnerKey.length := by
  rw [PurchaseArgs.payload, PurchaseArgs.payloadSize, List.length_append, List.length_append,
    List.length_append, length_setNum, length_padTo, max_eq_left halias]
  by_cases hpcm : a.nPcm > 0
  · obtain ⟨hmanager, hdelegate, hcontroller, -⟩ := hroles hpcm
    rw [if_pos hpcm, if_pos hpcm, PurchaseArgs.roles, List.length_append, List.length_append,
      List.length_append, length_setNum, hdelegate, hcontroller]
    split
    · rw [hmanager]
      omega
    · rw [List.length_nil]
      omega
  · rw [if_neg hpcm, if_neg hpcm, List.length_nil]
    omega

theorem rolesChecked_of_checkRoles (h : checkRoles a = .ok ()) : a.RolesChecked := by
  intro hpcm
  rw [checkRoles, if_pos hpcm] at h
  obtain ⟨hmanager, h⟩ := require_bind_eq_ok.1 h
  obtain ⟨hdelegate, h⟩ := require_bind_eq_ok.1 h
  obtain ⟨hcontroller, h⟩ := require_bind_eq_ok.1 h
  have hmax := require_eq_ok.1 h
  refine ⟨beq_iff_eq.1 hmanager, beq_iff_eq.1 hdelegate, beq_iff_eq.1 hcontroller, ?_⟩
  simpa using hmax

theorem checked_of_purchaseStaker {w : WalletCtx} {txid : Bytes} {script : CScript}
    (h : purchaseStaker w txid a = .ok script) :
    a.Checked ∧ script = push [] (a.payload w) ++ [if a.nPcm > 0 then opPurchase4 else opPurchase1] := by
  rw [purchaseStaker, checkQPoSEssentials_bind_eq_ok] at h
  obtain ⟨-, -, -, h⟩ := h
  obtain ⟨sLC, hsLC, h⟩ := Fallible.bind_eq_ok_iff.1 h
  obtain ⟨-, h⟩ := require_bind_eq_ok.1 h
  obtain ⟨⟨⟩, hchecked, h⟩ := Fallible.bind_eq_ok_iff.1 h
  obtain ⟨-, h⟩ := require_bind_eq_ok.1 h
  obtain ⟨hsize, h⟩ := require_bind_eq_ok.1 h
  have hroles := rolesChecked_of_checkRoles hchecked
  have halias : aliasIsValid a.sAlias = true := by
    rw [walletAlias, aliasIsAvailableInternal] at hsLC
    split at hsLC
    · cases hsLC
    · next heq =>
      split_ifs at heq with hvalid
      rwa [Bool.not_eq_true', Bool.not_eq_false] at hvalid
  -- the length of the payload leaves no room for an empty owner key
  have hlen := length_payload (aliasIsValid_cases halias).1 hroles (w := w)
  have hsize := beq_iff_eq.1 hsize
  exact ⟨⟨halias, by omega, hroles⟩, return_eq_ok.1 h⟩

section Decoding

variable {w : WalletCtx} {a : PurchaseArgs}

theorem takeKeys_short : ∀ {n : Nat} {b : Bytes}, b.length < 33 → takeKeys n b = ([], b)
  | 0, _, _ => rfl
  | _ + 1, _, h => if_pos h

theorem takeKeys_cons {n : Nat} {key rest : Bytes} (hkey : key.length = 33) :
    takeKeys (n + 1) (key ++ rest) = (key :: (takeKeys n rest).1, (takeKeys n rest).2) := by
  rw [takeKeys, if_neg (by rw [List.length_append]; omega), List.take_left' hkey, List.drop_left' hkey]

theorem ne_zero_of_aliasIsValid (h : aliasIsValid sAlias = true) : ∀ c ∈ sAlias, c ≠ 0 := by
  obtain ⟨-, c, rest, rfl, hfirst, hrest⟩ := aliasIsValid_cases h
  rintro b hb rfl
  obtain rfl | hb := List.mem_cons.1 hb
  · exact absurd hfirst (by decide)
  · exact absurd (List.all_eq_true.1 hrest 0 hb) (by decide)

theorem nftOfAlias_of_aliasIsValid (h : aliasIsValid sAlias = true) (nfts : NftTable) :
    nftOfAlias nfts sAlias = (nfts.mapNftLookup.getD (toLowercaseSafe sAlias) 0, sAlias) := by
  obtain ⟨-, c, rest, rfl, hfirst, -⟩ := aliasIsValid_cases h
  have hdigit : isDigitByte c = false := by
    simp only [isLowerByte, isUpperByte, isDigitByte, Bool.or_eq_true, Bool.and_eq_true,
      decide_eq_true_eq, UInt8.le_iff_toNat_le, UInt8.reduceToNat, Bool.and_eq_false_iff,
      decide_eq_false_iff_not] at hfirst ⊢
    omega
  rw [nftOfAlias, if_neg]
  simp [hdigit]

def PurchaseArgs.keys (w : WalletCtx) (a : PurchaseArgs) : List CPubKey :=
  if a.nPcm > 0 then
    if .missFix ≤ getFork w.env.fTestNet w.nBestHeight then
      [a.vchOwnerKey, a.vchDelegateKey, a.vchManagerKey, a.vchControllerKey]
    else [a.vchOwnerKey, a.vchDelegateKey, a.vchControllerKey]
  else [a.vchOwnerKey]

theorem extractPurchase_payload (h : a.Checked) (nfts : NftTable) : extractPurchase nfts (a.payload w) =
      { sAlias := a.sAlias, keys := a.keys w, pcm := a.nPcm.toNat, value := a.nPrice.toInt,
        nft := nfts.mapNftLookup.getD (toLowercaseSafe a.sAlias) 0 } := by
  obtain ⟨halias, howner, hroles⟩ := h
  have h16 := (aliasIsValid_cases halias).1
  have hpad : (padTo 16 a.sAlias).length = 16 := length_padTo.trans (max_eq_left h16)
  have htext := untilZero_padTo 16 (ne_zero_of_aliasIsValid halias)
  have hpcm : a.nPcm > 0 → int32Of (beValue (setNum a.nPcm.toNat 4)) = a.nPcm.toNat := by
    intro hpos
    obtain ⟨-, -, -, hmax⟩ := hroles hpos
    rw [beValue_uint32, int32Of, Int32.toInt_ofNat_of_lt]
    have hmax := UInt32.le_iff_toNat_le.1 hmax
    simp only [UInt32.reduceToNat] at hmax
    omega
  have hlength : 5 ≤ (a.payload w).length := by
    have hsize := length_payload h16 hroles (w := w)
    have hle : 57 ≤ a.payloadSize w := by
      rw [PurchaseArgs.payloadSize]
      split_ifs <;> decide
    omega
  obtain ⟨n, hn⟩ := Nat.exists_eq_add_of_le' hlength
  have hkeys : takeKeys (a.payload w).length ((a.payload w).drop 8) =
      (a.keys w, if a.nPcm > 0 then setNum a.nPcm.toNat 4 ++ padTo 16 a.sAlias else padTo 16 a.sAlias) := by
    rw [hn, PurchaseArgs.payload, PurchaseArgs.keys, List.append_assoc, List.append_assoc, drop_setNum,
      takeKeys_cons howner]
    by_cases hpos : a.nPcm > 0
    · obtain ⟨hmanager, hdelegate, hcontroller, -⟩ := hroles hpos
      have hrest : ∀ m, takeKeys m (setNum a.nPcm.toNat 4 ++ padTo 16 a.sAlias) =
          ([], setNum a.nPcm.toNat 4 ++ padTo 16 a.sAlias) := fun m =>
        takeKeys_short (by rw [List.length_append, length_setNum, hpad]; decide)
      simp only [if_pos hpos, PurchaseArgs.roles, List.append_assoc]
      rw [takeKeys_cons hdelegate]
      split
      · rw [takeKeys_cons hmanager, takeKeys_cons hcontroller, hrest]
      · rw [List.nil_append, takeKeys_cons hcontroller, hrest]
    · rw [if_neg hpos, if_neg hpos, if_neg hpos, List.nil_append, takeKeys_short (by rw [hpad]; decide)]
  have hvalue : int64Of (beValue ((a.payload w).take 8)) = a.nPrice.toInt := by
    rw [PurchaseArgs.payload, List.append_assoc, List.append_assoc, take_setNum, int64Of_setNum]
  rw [extractPurchase, hkeys, hvalue]
  by_cases hpos : a.nPcm > 0
  · have hlen : ((a.keys w).length == 3 || (a.keys w).length == 4) = true := by
      rw [PurchaseArgs.keys, if_pos hpos]
      split <;> rfl
    simp only [hlen, if_true, if_pos hpos, take_setNum, drop_setNum, htext, hpcm hpos,
      nftOfAlias_of_aliasIsValid halias]
  · have hlen : ((a.keys w).length == 3 || (a.keys w).length == 4) = false := by
      rw [PurchaseArgs.keys, if_neg hpos]
      rfl
    have hzero : a.nPcm.toNat = 0 := congrArg UInt32.toNat (UInt32.le_zero_iff.1 (UInt32.not_lt.1 hpos))
    simp only [hlen, Bool.false_eq_true, if_false, if_neg hpos, htext,
      nftOfAlias_of_aliasIsValid halias, hzero]
    rfl

theorem solver_purchase (h : a.Checked) :
    solver (push [] (a.payload w) ++ [if a.nPcm > 0 then opPurchase4 else opPurchase1]) =
      some (if a.nPcm > 0 then .purchase4 else .purchase1, [a.payload w]) := by
  obtain ⟨halias, howner, hroles⟩ := h
  have h16 := (aliasIsValid_cases halias).1
  have hsize := length_payload h16 hroles (w := w)
  rw [howner, Nat.add_right_cancel_iff] at hsize
  have haliasOf : aliasOf (a.payload w) = a.sAlias := by
    have hpad : (padTo 16 a.sAlias).length = 16 := length_padTo.trans (max_eq_left h16)
    rw [aliasOf, PurchaseArgs.payload, List.length_append, hpad, Nat.add_sub_cancel, List.drop_left,
      untilZero_padTo 16 (ne_zero_of_aliasIsValid halias)]
  rw [PurchaseArgs.payloadSize] at hsize
  by_cases hpos : a.nPcm > 0
  · rw [if_pos hpos] at hsize
    rw [if_pos hpos, if_pos hpos]
    refine solver_operation ?_ ?_ ?_ (by decide) ?_
    · split at hsize <;> omega
    · split at hsize <;> omega
    · rw [pushOpcode, if_neg (by split at hsize <;> omega)]
      decide
    · rw [txTypeIsStandard, List.headD_cons, haliasOf, halias, hsize]
      split <;> rfl
  · rw [if_neg hpos] at hsize
    rw [if_neg hpos, if_neg hpos]
    refine solver_operation (by omega) (by omega) ?_ (by decide) ?_
    · rw [pushOpcode_of_length hsize (by decide)]
      decide
    · rw [txTypeIsStandard, List.headD_cons, haliasOf, halias, hsize]
      rfl

def PurchaseArgs.deet (w : WalletCtx) (a : PurchaseArgs) (nfts : NftTable) (hashBlock hashTx : Uint256)
    (nOut : Nat) : QPTxDetails where
  t := if a.nPcm > 0 then .purchase4 else .purchase1
  id := nfts.mapNftLookup.getD (toLowercaseSafe a.sAlias) 0
  sAlias := a.sAlias
  keys := a.keys w
  pcm := a.nPcm.toNat
  value := a.nPrice.toInt
  hash := hashBlock
  txid := hashTx
  n := nOut

theorem outputDetails_purchase (h : a.Checked) (nfts : NftTable) (hashBlock hashTx : Uint256)
    (nOut : Nat) (nValue : Int64) : outputDetails nfts hashBlock hashTx nOut
        ⟨nValue, push [] (a.payload w) ++ [if a.nPcm > 0 then opPurchase4 else opPurchase1]⟩ =
      some (a.deet w nfts hashBlock hashTx nOut) := by
  rw [outputDetails]
  dsimp only
  rw [solver_purchase h]
  dsimp only [List.headD_cons]
  have hdetails : detailsOf nfts (if a.nPcm > 0 then .purchase4 else .purchase1) (a.payload w) =
      some { t := if a.nPcm > 0 then .purchase4 else .purchase1, sAlias := a.sAlias, keys := a.keys w,
             pcm := a.nPcm.toNat, value := a.nPrice.toInt,
             id := nfts.mapNftLookup.getD (toLowercaseSafe a.sAlias) 0 } := by
    have hread := extractPurchase_payload (w := w) h nfts
    by_cases hpos : a.nPcm > 0
    · rw [if_pos hpos, detailsOf, hread]
    · rw [if_neg hpos, detailsOf, hread]
  rw [hdetails]
  rfl

end Decoding

def newStaker (env : QPEnv) (r : QPRegistry) (deet : QPTxDetails) (pindex : CBlockIndex) :
    Option QPStaker :=
  match r.applyPurchase env deet pindex with
  | .error _ => none
  | .ok r' => r'.mapStakers[r'.nIDCounter]?

def chosenNft (env : QPEnv) (r : QPRegistry) (deet : QPTxDetails) (sKey : Bytes) : Option Nat :=
  if deet.id ≠ 0 then (if r.nftKeyIfAvailable env deet.id = some sKey then some deet.id else none)
  else if isNftKey env sKey then r.nftIDIfAvailable env sKey
  else r.nextFreeNft env

def CanTake (env : QPEnv) (r : QPRegistry) (nNftID : Nat) : Prop :=
  env.nfts.mapNfts.contains nNftID = true ∧ r.mapNftOwners.contains (r.nIDCounter + 1) = false ∧
    r.mapNftOwnerLookup.contains nNftID = false

instance (env : QPEnv) (r : QPRegistry) (nNftID : Nat) : Decidable (CanTake env r nNftID) :=
  inferInstanceAs (Decidable (_ ∧ _ ∧ _))

section Applying

variable {env : QPEnv} {r : QPRegistry} {deet : QPTxDetails} {staker : QPStaker} {b : CBlockIndex}

theorem assignNft_eq (env : QPEnv) (r : QPRegistry) (nID : Nat) (deet : QPTxDetails) :
    r.assignNft env nID deet (toLowercaseSafe deet.sAlias) =
      match chosenNft env r deet (toLowercaseSafe deet.sAlias) with
      | none => .error r
      | some nNftID => r.takeNft env nID nNftID (reportedAlias env deet) := by
  rw [assignNft, chosenNft, reportedAlias, namedNft]
  split
  · cases hkey : r.nftKeyIfAvailable env deet.id with
    | none => rfl
    | some sKey =>
      by_cases hsame : sKey = toLowercaseSafe deet.sAlias
      · simp [hsame]
      · simp [hsame]
  · split
    · cases hnft : r.nftIDIfAvailable env (toLowercaseSafe deet.sAlias) with
      | none => rfl
      | some nNftID => rw [nftIDIfAvailable_some hnft]
    · next hkey =>
      have hnone : env.nfts.mapNftLookup[toLowercaseSafe deet.sAlias]? = none := by
        simpa [isNftKey] using hkey
      cases r.nextFreeNft env <;> simp only [hnone]

def enrol (r : QPRegistry) (staker : QPStaker) : QPRegistry :=
  { r with nIDCounter := r.nIDCounter + 1 }.putStaker (r.nIDCounter + 1) staker

theorem setStakerNft_enrol (env : QPEnv) (r : QPRegistry) (staker : QPStaker) (nNftID : Nat) :
    (enrol r staker).setStakerNft env (r.nIDCounter + 1) nNftID =
      if CanTake env r nNftID then
        some { enrol r staker with
          mapNftOwners := r.mapNftOwners.insert (r.nIDCounter + 1) nNftID
          mapNftOwnerLookup := r.mapNftOwnerLookup.insert nNftID (r.nIDCounter + 1) }
      else none := by
  have hthere : (enrol r staker).mapStakers.contains (r.nIDCounter + 1) = true := by
    simp [enrol, putStaker]
  have howners : (enrol r staker).mapNftOwners = r.mapNftOwners := rfl
  have hlookup : (enrol r staker).mapNftOwnerLookup = r.mapNftOwnerLookup := rfl
  rw [setStakerNft, hthere, howners, hlookup]
  by_cases hcan : CanTake env r nNftID
  · rw [if_pos hcan, hcan.1, hcan.2.1, hcan.2.2]
    rfl
  · rw [if_neg hcan]
    split_ifs with _ hknown howner hfree
    · rfl
    · rfl
    · rfl
    · rfl
    · refine absurd ⟨?_, eq_false_of_ne_true howner, eq_false_of_ne_true hfree⟩ hcan
      rwa [Bool.not_eq_true', Bool.not_eq_false] at hknown

theorem takeNft_enrol (hcan : CanTake env r nNftID) (hempty : staker.sAlias = []) (sAlias : Bytes) :
    ∃ r', (enrol r staker).takeNft env (r.nIDCounter + 1) nNftID sAlias = .ok r' ∧
      r'.nIDCounter = r.nIDCounter + 1 ∧
      r'.mapStakers[r.nIDCounter + 1]? = some { staker with sAlias := sAlias } := by
  have hstaker : (enrol r staker).mapStakers[r.nIDCounter + 1]? = some staker := by
    simp [enrol, putStaker]
  rw [takeNft, setStakerNft_enrol, if_pos hcan]
  dsimp only
  rw [setAliasAt, hstaker]
  dsimp only
  rw [QPStaker.setAlias, if_neg (not_not.2 hempty)]
  exact ⟨_, rfl, rfl, getElem?_insert_self⟩

theorem takeNft_enrol_error (hcannot : ¬CanTake env r nNftID) (staker : QPStaker) (sAlias : Bytes) :
    (enrol r staker).takeNft env (r.nIDCounter + 1) nNftID sAlias = .error (enrol r staker) := by
  rw [takeNft, setStakerNft_enrol, if_neg hcannot]

/-- What a purchase with well formed keys leaves: its staker under the alias to report, if the alias
and a character are free. -/
theorem newStaker_eq (hstaker : stakerOfPurchase deet = some staker) (hempty : staker.sAlias = []) :
    newStaker env r deet b = (r.aliasIsAvailableInternal deet.sAlias).bind fun _ =>
      (chosenNft env r deet (toLowercaseSafe deet.sAlias)).bind fun nNftID =>
        if CanTake env r nNftID then some { staker with sAlias := reportedAlias env deet } else none := by
  rw [newStaker, applyPurchase, hstaker]
  dsimp only
  cases hkey : r.aliasIsAvailableInternal deet.sAlias with
  | none => rfl
  | some sKey =>
    obtain rfl : sKey = toLowercaseSafe deet.sAlias := by
      rw [aliasIsAvailableInternal] at hkey
      split_ifs at hkey
      exact (Option.some_inj.1 hkey).symm
    have hassign := assignNft_eq env (enrol r staker) (r.nIDCounter + 1) deet
    have hchosen : chosenNft env (enrol r staker) deet (toLowercaseSafe deet.sAlias) =
        chosenNft env r deet (toLowercaseSafe deet.sAlias) := rfl
    rw [hchosen, enrol] at hassign
    dsimp only [Option.bind_some]
    rw [hassign]
    cases chosenNft env r deet (toLowercaseSafe deet.sAlias) with
    | none => rfl
    | some nNftID =>
      dsimp only [Option.bind_some]
      by_cases hcan : CanTake env r nNftID
      · obtain ⟨r', htake, hcounter, hnew⟩ := takeNft_enrol hcan hempty (reportedAlias env deet)
        rw [enrol] at htake
        rw [htake, if_pos hcan]
        dsimp only
        rw [← hnew, ← hcounter]
        split <;> rfl
      · have herror := takeNft_enrol_error hcan staker (reportedAlias env deet)
        rw [enrol] at herror
        rw [herror, if_neg hcan]

end Applying

/-- A staker has the keys, the payout and the alias of the arguments, each in its own role. -/
structure PurchaseArgs.InRoles (a : PurchaseArgs) (s : QPStaker) : Prop where
  owner : s.pubkeyOwner = a.vchOwnerKey
  manager : s.pubkeyManager = a.vchManagerKey
  delegate : s.pubkeyDelegate = a.vchDelegateKey
  controller : s.pubkeyController = a.vchControllerKey
  payout : s.nPcmDelegatePayout = a.nPcm
  sAlias : s.sAlias = a.sAlias

/-- The keys that survive the exchange of manager and delegate, or the omission of all but the owner. -/
def PurchaseArgs.KeysFit (a : PurchaseArgs) : Prop :=
  if a.nPcm > 0 then a.vchManagerKey = a.vchDelegateKey
  else a.vchManagerKey = a.vchOwnerKey ∧ a.vchDelegateKey = a.vchOwnerKey ∧
    a.vchControllerKey = a.vchOwnerKey

/-- The alias is free and stays the alias of the staker: it is not the name of a character, and some
character is free, or it is the nickname of the free character that it names. -/
def AliasFits (env : QPEnv) (r : QPRegistry) (sAlias : Bytes) : Prop :=
  (r.aliasIsAvailableInternal sAlias).isSome = true ∧
    r.mapNftOwners.contains (r.nIDCounter + 1) = false ∧
    match env.nfts.mapNftLookup[toLowercaseSafe sAlias]? with
    | none => (r.nextFreeNft env).isSome = true
    | some nNftID => nNftID ≠ 0 ∧ r.nftKeyIfAvailable env nNftID = some (toLowercaseSafe sAlias) ∧
        r.mapNftOwnerLookup.contains nNftID = false ∧ nickname env nNftID = sAlias

section Roles

variable {w : WalletCtx} {a : PurchaseArgs} {env : QPEnv} {r : QPRegistry}

/-- The staker of the record: the delegate key stands where the manager key is read. -/
def PurchaseArgs.staker (w : WalletCtx) (a : PurchaseArgs) (deet : QPTxDetails) : QPStaker :=
  if a.nPcm > 0 then
    { QPStaker.ofDetails deet a.vchOwnerKey with
      pubkeyManager := a.vchDelegateKey
      pubkeyDelegate := if .missFix ≤ getFork w.env.fTestNet w.nBestHeight then a.vchManagerKey
        else a.vchDelegateKey
      pubkeyController := a.vchControllerKey
      nPcmDelegatePayout := a.nPcm }
  else QPStaker.ofDetails deet a.vchOwnerKey

theorem payoutOfInt_toNat (n : UInt32) : QPStaker.payoutOfInt (n.toNat : Int) = n := by
  rw [QPStaker.payoutOfInt, Int.emod_eq_of_lt (Int.natCast_nonneg _)
    (by exact_mod_cast n.toNat_lt), Int.toNat_natCast, UInt32.ofNat_toNat]

theorem stakerOfPurchase_deet (h : a.Checked) (nfts : NftTable) (hashBlock hashTx : Uint256) (nOut : Nat) :
    stakerOfPurchase (a.deet w nfts hashBlock hashTx nOut) =
      some (a.staker w (a.deet w nfts hashBlock hashTx nOut)) := by
  have ht : (a.deet w nfts hashBlock hashTx nOut).t = if a.nPcm > 0 then .purchase4 else .purchase1 := rfl
  have hkeys : (a.deet w nfts hashBlock hashTx nOut).keys = a.keys w := rfl
  have hpcm : (a.deet w nfts hashBlock hashTx nOut).pcm = a.nPcm.toNat := rfl
  rw [stakerOfPurchase, hkeys, PurchaseArgs.keys, PurchaseArgs.staker]
  by_cases hpos : a.nPcm > 0
  · obtain ⟨-, -, -, hmax⟩ := h.roles hpos
    have hpay : ∀ s : QPStaker, s.setDelegatePayout a.nPcm.toNat =
        ({ s with nPcmDelegatePayout := a.nPcm }, true) := by
      intro s
      rw [QPStaker.setDelegatePayout, payoutOfInt_toNat, if_neg (UInt32.not_lt.2 hmax)]
    by_cases hfork : .missFix ≤ getFork w.env.fTestNet w.nBestHeight
    · simp only [ht, hpcm, if_pos hpos, if_pos hfork, hpay]
      rfl
    · simp only [ht, hpcm, if_pos hpos, if_neg hfork, hpay]
      rfl
  · simp only [ht, if_neg hpos]
    rfl

theorem staker_sAlias (deet : QPTxDetails) : (a.staker w deet).sAlias = [] := by
  rw [PurchaseArgs.staker]
  split <;> rfl

theorem inRoles_staker_iff {deet : QPTxDetails} :
    a.InRoles { a.staker w deet with sAlias := sAlias } ↔ a.KeysFit ∧ sAlias = a.sAlias := by
  rw [PurchaseArgs.KeysFit, PurchaseArgs.staker]
  by_cases hpos : a.nPcm > 0
  · rw [if_pos hpos, if_pos hpos]
    constructor
    · rintro ⟨-, hmanager, -, -, -, halias⟩
      exact ⟨hmanager.symm, halias⟩
    · rintro ⟨hkeys, halias⟩
      refine ⟨rfl, hkeys.symm, ?_, rfl, rfl, halias⟩
      dsimp only
      split
      · exact hkeys
      · rfl
  · rw [if_neg hpos, if_neg hpos]
    have hzero : a.nPcm = 0 := UInt32.le_zero_iff.1 (UInt32.not_lt.1 hpos)
    constructor
    · rintro ⟨-, hmanager, hdelegate, hcontroller, -, halias⟩
      exact ⟨⟨hmanager.symm, hdelegate.symm, hcontroller.symm⟩, halias⟩
    · rintro ⟨⟨hmanager, hdelegate, hcontroller⟩, halias⟩
      exact ⟨rfl, hmanager.symm, hdelegate.symm, hcontroller.symm, hzero.symm, halias⟩

theorem canTake_of_nextFreeNft (h : r.nextFreeNft env = some nNftID)
    (howner : r.mapNftOwners.contains (r.nIDCounter + 1) = false) : CanTake env r nNftID := by
  rw [nextFreeNft] at h
  have hmem := List.mem_of_find?_eq_some h
  have hfree := List.find?_some h
  refine ⟨?_, howner, ?_⟩
  · obtain ⟨⟨n, nft⟩, hentry, rfl⟩ := List.mem_map.1 hmem
    rw [contains_iff_mem, mem_iff_isSome_getElem?,
      mem_toList_iff_getElem?_eq_some.1 hentry]
    rfl
  · rwa [Bool.not_eq_true'] at hfree

theorem contains_of_nftKeyIfAvailable {sKey : Bytes}
    (h : r.nftKeyIfAvailable env nNftID = some sKey) : env.nfts.mapNfts.contains nNftID = true := by
  rw [nftKeyIfAvailable] at h
  split at h
  · next havailable => exact (Bool.and_eq_true_iff.1 havailable).1
  · cases h

/-- A free character is found, and the alias to report is the alias bought, exactly when it fits. -/
theorem aliasFits_iff (hashBlock hashTx : Uint256) (nOut : Nat) :
    AliasFits env r a.sAlias ↔ (r.aliasIsAvailableInternal a.sAlias).isSome = true ∧
      (∃ nNftID, chosenNft env r (a.deet w env.nfts hashBlock hashTx nOut) (toLowercaseSafe a.sAlias) =
        some nNftID ∧ CanTake env r nNftID) ∧
      reportedAlias env (a.deet w env.nfts hashBlock hashTx nOut) = a.sAlias := by
  have hid : (a.deet w env.nfts hashBlock hashTx nOut).id =
      (env.nfts.mapNftLookup[toLowercaseSafe a.sAlias]?).getD 0 :=
    getD_eq_getD_getElem?
  have hsAlias : (a.deet w env.nfts hashBlock hashTx nOut).sAlias = a.sAlias := rfl
  rw [AliasFits, chosenNft, reportedAlias, namedNft, hid, hsAlias]
  refine and_congr_right fun _ => ?_
  cases hlookup : env.nfts.mapNftLookup[toLowercaseSafe a.sAlias]? with
  | none =>
    have hkey : isNftKey env (toLowercaseSafe a.sAlias) = false := by
      simp [isNftKey, Std.ExtTreeMap.contains_eq_isSome_getElem?, hlookup]
    rw [hkey]
    simp only [Option.getD_none, ne_eq, not_true_eq_false, if_false, Bool.false_eq_true, and_true]
    constructor
    · rintro ⟨howner, hfree⟩
      obtain ⟨nNftID, hnext⟩ := Option.isSome_iff_exists.1 hfree
      exact ⟨nNftID, hnext, canTake_of_nextFreeNft hnext howner⟩
    · rintro ⟨nNftID, hnext, hcan⟩
      exact ⟨hcan.2.1, by rw [hnext]; rfl⟩
  | some nNftID =>
    have hkey : isNftKey env (toLowercaseSafe a.sAlias) = true := by
      simp [isNftKey, Std.ExtTreeMap.contains_eq_isSome_getElem?, hlookup]
    rw [hkey]
    by_cases hzero : nNftID = 0
    · -- the table gives no character to the identifier 0
      subst hzero
      have hnone : r.nftIDIfAvailable env (toLowercaseSafe a.sAlias) = none := by
        rw [nftIDIfAvailable, getD_eq_getD_getElem?, hlookup]
        simp
      simp [hnone]
    · simp only [Option.getD_some, ne_eq, hzero, not_false_eq_true, if_true, true_and]
      constructor
      · rintro ⟨howner, hkeyOf, hfree, hnick⟩
        rw [if_pos hkeyOf]
        exact ⟨⟨nNftID, rfl, contains_of_nftKeyIfAvailable hkeyOf, howner, hfree⟩, hnick⟩
      · rintro ⟨⟨n, hchosen, hcan⟩, hnick⟩
        obtain ⟨hkeyOf, heq⟩ := Option.ite_none_right_eq_some.1 hchosen
        cases heq
        exact ⟨hcan.2.1, hkeyOf, hcan.2.2, hnick⟩

/-- The script of the wallet leads to a staker with all arguments in their roles exactly when manager
and delegate have the same key, or without payout all have the key of the owner, and the alias fits the
registry that the purchase is applied to. -/
theorem purchaseStaker_inRoles_iff {txid : Bytes} {script : CScript}
    (h : purchaseStaker w txid a = .ok script) (r : QPRegistry) (pindex : CBlockIndex)
    (hashTx : Uint256) (nOut : Nat) (nValue : Int64) :
    (∃ deet s, outputDetails w.env.nfts pindex.hashBlock hashTx nOut ⟨nValue, script⟩ = some deet ∧
      newStaker w.env r deet pindex = some s ∧ a.InRoles s) ↔
    a.KeysFit ∧ AliasFits w.env r a.sAlias := by
  obtain ⟨hchecked, rfl⟩ := checked_of_purchaseStaker h
  rw [outputDetails_purchase hchecked, aliasFits_iff (w := w) pindex.hashBlock hashTx nOut]
  have hnew := @newStaker_eq w.env r _ _ pindex
    (stakerOfPurchase_deet hchecked w.env.nfts pindex.hashBlock hashTx nOut) (staker_sAlias (w := w) _)
  constructor
  · rintro ⟨deet, s, hdeet, hs, hroles⟩
    cases hdeet
    rw [hnew] at hs
    obtain ⟨sKey, hkey, hs⟩ := Option.bind_eq_some_iff.1 hs
    obtain ⟨nNftID, hchosen, hs⟩ := Option.bind_eq_some_iff.1 hs
    obtain ⟨hcan, hs⟩ := Option.ite_none_right_eq_some.1 hs
    cases hs
    obtain ⟨hkeys, halias⟩ := inRoles_staker_iff.1 hroles
    exact ⟨hkeys, Option.isSome_iff_exists.2 ⟨sKey, hkey⟩, ⟨nNftID, hchosen, hcan⟩, halias⟩
  · rintro ⟨hkeys, hsome, ⟨nNftID, hchosen, hcan⟩, halias⟩
    obtain ⟨sKey, hkey⟩ := Option.isSome_iff_exists.1 hsome
    have hsAlias : (a.deet w w.env.nfts pindex.hashBlock hashTx nOut).sAlias = a.sAlias := rfl
    rw [hsAlias, hkey, Option.bind_some, hchosen, Option.bind_some, if_pos hcan] at hnew
    exact ⟨_, _, rfl, hnew, inRoles_staker_iff.2 ⟨hkeys, halias⟩⟩

end Roles

def keyOfByte (b : UInt8) : CPubKey := 2 :: List.replicate 32 b

def buyersWallet : WalletCtx := { openWallet with pregistryMain := QPRegistry.empty QPRegistry.mainEnv }

def buyersArgs (manager delegate : CPubKey) : PurchaseArgs where
  sAlias := [108, 111, 110, 101]
  vchOwnerKey := keyOfByte 1
  vchManagerKey := manager
  vchDelegateKey := delegate
  vchControllerKey := keyOfByte 4
  nPrice := 100000000000
  nPcm := 5000

/-- The keys of manager and delegate that the purchase leaves in the registry. -/
def boughtKeys (a : PurchaseArgs) : Option (CPubKey × CPubKey) :=
  (purchaseStaker buyersWallet (List.replicate 64 48) a).toOption.bind fun script =>
    (outputDetails QPRegistry.mainEnv.nfts claimantTip.hashBlock 7 0 ⟨0, script⟩).bind fun deet =>
      (newStaker QPRegistry.mainEnv (QPRegistry.empty QPRegistry.mainEnv) deet claimantTip).map
        fun s => (s.pubkeyManager, s.pubkeyDelegate)

theorem purchaseStaker_inRoles_iff_same :
    ∃ script, purchaseStaker buyersWallet (List.replicate 64 48) (buyersArgs (keyOfByte 2) (keyOfByte 2)) =
        .ok script ∧
      ∃ deet s, outputDetails QPRegistry.mainEnv.nfts claimantTip.hashBlock 7 0 ⟨0, script⟩ = some deet ∧
        newStaker QPRegistry.mainEnv (QPRegistry.empty QPRegistry.mainEnv) deet claimantTip = some s ∧
        (buyersArgs (keyOfByte 2) (keyOfByte 2)).InRoles s := by
  have hsome : (purchaseStaker buyersWallet (List.replicate 64 48)
      (buyersArgs (keyOfByte 2) (keyOfByte 2))).toOption.isSome = true := by decide +kernel
  have hlookup : QPRegistry.mainEnv.nfts.mapNftLookup[toLowercaseSafe [108, 111, 110, 101]]? = none := by
    decide +kernel
  have hfits : AliasFits QPRegistry.mainEnv (QPRegistry.empty QPRegistry.mainEnv)
      [108, 111, 110, 101] := by
    refine ⟨by decide +kernel, by decide +kernel, ?_⟩
    rw [hlookup]
    decide +kernel
  cases hscript : purchaseStaker buyersWallet (List.replicate 64 48)
      (buyersArgs (keyOfByte 2) (keyOfByte 2)) with
  | error e =>
    rw [hscript] at hsome
    cases hsome
  | ok script =>
    exact ⟨script, rfl, (purchaseStaker_inRoles_iff hscript _ claimantTip 7 0 0).2 ⟨rfl, hfits⟩⟩

/-- Manager and delegate are exchanged. -/
theorem boughtKeys_exchanged :
    boughtKeys (buyersArgs (keyOfByte 2) (keyOfByte 3)) = some (keyOfByte 3, keyOfByte 2) := by
  decide +kernel

end Stealth

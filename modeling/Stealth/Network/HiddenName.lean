import Stealth.Network.AddrMessage
import Stealth.Network.Base32

/-!
Names of hidden services. `SetSpecial` stores a decoded name behind a leader, that of Tor for I2P as well.
-/

namespace Stealth

open CAddress

def pchOnionCat : Bytes := [0xFD, 0x87, 0xD8, 0x7E, 0xEB, 0x43]
def pchGarlicCat : Bytes := [0xFD, 0x60, 0xDB, 0x4D, 0xDD, 0xB5]
def pchIPv4 : Bytes := [0, 0, 0, 0, 0, 0, 0, 0, 0, 0, 0xff, 0xff]

def ONION_ADDRESS : Nat := 35
def GARLIC_ADDRESS : Nat := 10

def STR_ONION_SUFFIX : Bytes := [46, 111, 110, 105, 111, 110]

def STR_GARLIC_SUFFIX : Bytes := [46, 111, 99, 46, 98, 51, 50, 46, 105, 50, 112]

inductive Network
  | unroutable | ipv4 | ipv6 | tor | i2p
  deriving DecidableEq

def hasSuffix (strName suffix : Bytes) : Bool :=
  decide (suffix.length < strName.length) && strName.drop (strName.length - suffix.length) == suffix

/-- The bytes of the name go behind the leader; the rest of the address stays. -/
def setDecoded (ip cat : Bytes) (nAddress : Nat) (strAddr : Bytes) : Option Bytes :=
  let vchAddr := decodeBase32 strAddr
  if vchAddr.length ≠ nAddress then none else some (cat ++ (vchAddr ++ ip.drop (cat.length + nAddress)))

def setSpecial (ip strName : Bytes) : Option Bytes :=
  if hasSuffix strName STR_ONION_SUFFIX then
    setDecoded ip pchOnionCat ONION_ADDRESS (strName.take (strName.length - STR_ONION_SUFFIX.length))
  else if hasSuffix strName STR_GARLIC_SUFFIX then
    setDecoded ip pchOnionCat GARLIC_ADDRESS (strName.take (strName.length - STR_GARLIC_SUFFIX.length))
  else none

section Tests

variable (sha3_256 : Bytes → Bytes) (ip : Bytes)

def startsWith (pch : Bytes) : Bool := ip.take pch.length == pch

def getByte (n : Nat) : UInt8 := ip.getD (15 - n) 0

/-- `.onion checksum`, the key and the version are hashed. The checksum is the first two bytes. -/
def torV3Checksum (pchPubkey : Bytes) : Bytes :=
  let pchHash := sha3_256 ([46, 111, 110, 105, 111, 110, 32, 99, 104, 101, 99, 107, 115, 117, 109] ++ (pchPubkey ++ [3]))
  [pchHash.getD 0 0, pchHash.getD 1 0]

def isIPv4 : Bool := startsWith ip pchIPv4
def isTor : Bool := startsWith ip pchOnionCat
def isI2P : Bool := startsWith ip pchGarlicCat
def isIPv6 : Bool := !isIPv4 ip && !isTor ip && !isI2P ip

def isTorV3 : Bool :=
  startsWith ip pchOnionCat && ip.getD 40 0 == 3 &&
    [ip.getD 38 0, ip.getD 39 0] == torV3Checksum sha3_256 ((ip.drop 6).take 32)

def isRFC1918 : Bool :=
  isIPv4 ip && (getByte ip 3 == 10 || (getByte ip 3 == 192 && getByte ip 2 == 168) ||
    (getByte ip 3 == 172 && decide (16 ≤ getByte ip 2 ∧ getByte ip 2 ≤ 31)))

def isRFC3927 : Bool := isIPv4 ip && (getByte ip 3 == 169 && getByte ip 2 == 254)
def isRFC3849 : Bool := [getByte ip 15, getByte ip 14, getByte ip 13, getByte ip 12] == [0x20, 0x01, 0x0D, 0xB8]
def isRFC4862 : Bool := startsWith ip [0xFE, 0x80, 0, 0, 0, 0, 0, 0]
def isRFC4193 : Bool := getByte ip 15 &&& 0xFE == 0xFC
def isRFC4843 : Bool :=
  [getByte ip 15, getByte ip 14, getByte ip 13] == [0x20, 0x01, 0x00] && getByte ip 12 &&& 0xF0 == 0x10

def isLocal : Bool :=
  (isIPv4 ip && (getByte ip 3 == 127 || getByte ip 3 == 0)) || startsWith ip (List.replicate 15 0 ++ [1])

def isValid (nVersionCheck : Int) : Bool :=
  if isTor ip then !decide (nVersionCheck < CADDR_IP64_VERSION)
  else ((ip.take IP64_MARKER_START).drop 16).all (· == 0) && !startsWith ip (pchIPv4.drop 3) &&
    !startsWith ip (List.replicate 16 0) && !isRFC3849 ip &&
    !(isIPv4 ip && ((ip.drop 12).take 4 == [255, 255, 255, 255] || (ip.drop 12).take 4 == [0, 0, 0, 0]))

def isRoutable : Bool :=
  isValid ip 2147483647 && !(isRFC1918 ip || isRFC3927 ip || isRFC4862 ip ||
    (isRFC4193 ip && !isTorV3 sha3_256 ip && !isI2P ip) || isRFC4843 ip || isLocal ip)

def getNetwork : Network :=
  if !isRoutable sha3_256 ip then .unroutable
  else if isIPv4 ip then .ipv4
  else if isTorV3 sha3_256 ip then .tor
  else if isI2P ip then .i2p
  else .ipv6

def toStringIP (numeric : Bytes → Bytes) : Bytes :=
  if isTorV3 sha3_256 ip then encodeBase32 ((ip.drop 6).take ONION_ADDRESS) true ++ STR_ONION_SUFFIX
  else if isI2P ip then encodeBase32 ((ip.drop 6).take GARLIC_ADDRESS) true ++ STR_GARLIC_SUFFIX
  else numeric ip

def OnlyIn (net : Network) : Prop :=
  getNetwork sha3_256 ip = net ∧ isIPv4 ip = false ∧ isIPv6 ip = false ∧
    isTor ip = decide (net = .tor) ∧ isTorV3 sha3_256 ip = decide (net = .tor) ∧ isI2P ip = decide (net = .i2p)

end Tests

/-- A hidden service: the key of a version 3 onion service, or the bytes of a short I2P name. -/
inductive HiddenService
  | onion (pubkey : Bytes) (length : pubkey.length = 32)
  | garlic (host : Bytes) (length : host.length = GARLIC_ADDRESS)

namespace HiddenService

variable (sha3_256 : Bytes → Bytes)

def network : HiddenService → Network
  | onion _ _ => .tor
  | garlic _ _ => .i2p

def suffix : HiddenService → Bytes
  | onion _ _ => STR_ONION_SUFFIX
  | garlic _ _ => STR_GARLIC_SUFFIX

def payload : HiddenService → Bytes
  | onion pubkey _ => pubkey ++ (torV3Checksum sha3_256 pubkey ++ [3])
  | garlic host _ => host

def name (h : HiddenService) : Bytes := encodeBase32 (h.payload sha3_256) true ++ h.suffix

def address (ip : Bytes) (h : HiddenService) : Bytes :=
  pchOnionCat ++ (h.payload sha3_256 ++ ip.drop (6 + (h.payload sha3_256).length))

variable {sha3_256}

theorem length_payload (h : HiddenService) :
    (h.payload sha3_256).length = if h.network = .tor then ONION_ADDRESS else GARLIC_ADDRESS := by
  cases h with
  | onion pubkey length =>
    rw [payload, List.length_append, length]
    rfl
  | garlic host length => exact length

theorem encodeBase32_ne_nil {b : UInt8} {bs : Bytes} {pad : Bool} : encodeBase32 (b :: bs) pad ≠ [] :=
  List.cons_ne_nil _ _

theorem hasSuffix_append {text suffix : Bytes} (h : text ≠ []) : hasSuffix (text ++ suffix) suffix = true := by
  have hlength := List.length_pos_iff.2 h
  rw [hasSuffix, List.length_append, Nat.add_sub_cancel, List.drop_left, beq_self_eq_true, Bool.and_true]
  exact decide_eq_true (by omega)

theorem not_hasSuffix_onion (text : Bytes) : hasSuffix (text ++ STR_GARLIC_SUFFIX) STR_ONION_SUFFIX = false := by
  have hdrop : (text ++ STR_GARLIC_SUFFIX).drop ((text ++ STR_GARLIC_SUFFIX).length - STR_ONION_SUFFIX.length) =
      STR_GARLIC_SUFFIX.drop 5 := by
    rw [List.length_append]
    exact List.drop_length_add_append 5
  rw [hasSuffix, hdrop]
  exact Bool.and_false _

theorem setSpecial_name (ip : Bytes) (h : HiddenService) :
    setSpecial ip (h.name sha3_256) = some (h.address sha3_256 ip) := by
  have hlength : (h.payload sha3_256).length = _ := length_payload h
  have hdecode : decodeBase32 (encodeBase32 (h.payload sha3_256) true) = h.payload sha3_256 :=
    decodeBase32_encodeBase32 (.inl rfl)
  have htext : encodeBase32 (h.payload sha3_256) true ≠ [] := by
    cases hp : h.payload sha3_256 with
    | nil =>
      rw [hp] at hlength
      split at hlength <;> cases hlength
    | cons b bs => exact encodeBase32_ne_nil
  have hset : ∀ suffix nAddress, (h.payload sha3_256).length = nAddress →
      setDecoded ip pchOnionCat nAddress ((encodeBase32 (h.payload sha3_256) true ++ suffix).take
        ((encodeBase32 (h.payload sha3_256) true ++ suffix).length - suffix.length)) = some (h.address sha3_256 ip) := by
    rintro suffix nAddress rfl
    rw [List.length_append, Nat.add_sub_cancel, List.take_left, setDecoded, hdecode]
    exact if_neg (not_not_intro rfl)
  cases h with
  | onion pubkey length =>
    rw [setSpecial, name, suffix, if_pos (hasSuffix_append htext)]
    exact hset _ _ hlength
  | garlic host length =>
    rw [setSpecial, name, suffix, if_neg (by rw [not_hasSuffix_onion]; exact Bool.false_ne_true),
      if_pos (hasSuffix_append htext)]
    exact hset _ _ hlength

theorem address_inj (ip : Bytes) {h h' : HiddenService} (hnet : h.network = h'.network)
    (heq : h.address sha3_256 ip = h'.address sha3_256 ip) : h.name sha3_256 = h'.name sha3_256 := by
  have hlength : (h.payload sha3_256).length = (h'.payload sha3_256).length := by
    rw [length_payload, length_payload, hnet]
  have hpayload := (List.append_inj (List.append_cancel_left heq) hlength).1
  have hsuffix : h.suffix = h'.suffix := by
    cases h <;> cases h' <;> first | rfl | cases hnet
  rw [name, name, hpayload, hsuffix]

theorem startsWith_address (ip : Bytes) (h : HiddenService) (cat : Bytes) (hcat : cat.length = 6) :
    startsWith (h.address sha3_256 ip) cat = (pchOnionCat == cat) := by
  rw [startsWith, hcat, address]
  rfl

theorem isI2P_address (ip : Bytes) (h : HiddenService) : isI2P (h.address sha3_256 ip) = false :=
  startsWith_address ip h pchGarlicCat rfl

variable {pubkey : Bytes} {length : pubkey.length = 32}

theorem isTorV3_address (ip : Bytes) : isTorV3 sha3_256 ((onion pubkey length).address sha3_256 ip) = true := by
  have hkey : (((onion pubkey length).address sha3_256 ip).drop 6).take 32 = pubkey := by
    change ((pubkey ++ _) ++ _).take 32 = pubkey
    rw [List.append_assoc, List.take_left' length]
  have hbyte : ∀ k, ((onion pubkey length).address sha3_256 ip).getD (38 + k) 0 =
      ((torV3Checksum sha3_256 pubkey ++ [3]) ++
        ip.drop (6 + ((onion pubkey length).payload sha3_256).length)).getD k 0 := by
    intro k
    rw [List.getD_eq_getElem?_getD, ← List.getElem?_drop, ← List.getD_eq_getElem?_getD]
    refine congrArg (List.getD · k 0) ?_
    change ((pubkey ++ _) ++ _).drop 32 = _
    rw [List.append_assoc, List.drop_left' length]
  rw [isTorV3, hkey, hbyte 2, hbyte 0, hbyte 1, startsWith_address ip _ _ rfl]
  exact (Bool.and_eq_true ..).symm ▸ ⟨rfl, beq_self_eq_true _⟩

theorem onlyIn_tor (ip : Bytes) : OnlyIn sha3_256 ((onion pubkey length).address sha3_256 ip) .tor := by
  have hv3 : isTorV3 sha3_256 ((onion pubkey length).address sha3_256 ip) = true := isTorV3_address ip
  have hroutable : isRoutable sha3_256 ((onion pubkey length).address sha3_256 ip) = true := by
    rw [isRoutable, hv3, Bool.not_true, Bool.and_false, Bool.false_and]
    rfl
  refine ⟨?_, rfl, rfl, rfl, hv3, rfl⟩
  rw [getNetwork, hroutable, hv3]
  rfl

theorem toStringIP_address (numeric : Bytes → Bytes) (ip : Bytes) :
    toStringIP sha3_256 ((onion pubkey length).address sha3_256 ip) numeric = (onion pubkey length).name sha3_256 := by
  have hpayload : (((onion pubkey length).address sha3_256 ip).drop 6).take ONION_ADDRESS =
      (onion pubkey length).payload sha3_256 := by
    rw [← show _ = ONION_ADDRESS from length_payload (onion pubkey length)]
    exact List.take_left
  rw [toStringIP, isTorV3_address, if_pos rfl, hpayload]
  rfl

/-- A name gives an address of its network, and is the text of this address, exactly if it is an onion name. Different
names of one network give different addresses. -/
theorem setSpecial_iff (sha3_256 numeric : Bytes → Bytes) (ip : Bytes) : (∀ h : HiddenService,
      (∃ ip', setSpecial ip (h.name sha3_256) = some ip' ∧ OnlyIn sha3_256 ip' h.network ∧
        toStringIP sha3_256 ip' numeric = h.name sha3_256) ↔ h.network = .tor) ∧
    ∀ h h' : HiddenService, h.network = h'.network → h.name sha3_256 ≠ h'.name sha3_256 →
      setSpecial ip (h.name sha3_256) ≠ setSpecial ip (h'.name sha3_256) := by
  refine ⟨fun h => ?_, fun h h' hnet hne heq => ?_⟩
  · rw [setSpecial_name]
    cases h with
    | onion pubkey length =>
      exact iff_of_true ⟨_, rfl, onlyIn_tor ip, toStringIP_address numeric ip⟩ rfl
    | garlic host length =>
      refine iff_of_false ?_ Network.noConfusion
      rintro ⟨ip', heq, ⟨-, -, -, -, -, hi2p⟩, -⟩
      rw [← Option.some.inj heq, isI2P_address] at hi2p
      cases hi2p
  · rw [setSpecial_name, setSpecial_name] at heq
    exact hne (address_inj ip hnet (Option.some.inj heq))

/-- The I2P name `aaaaaaaaaaaaaaaa.oc.b32.i2p` gives an address that is in no network, with the leader of Tor. -/
theorem setSpecial_garlic : ∃ ip',
    setSpecial (widen (List.replicate 16 0)) (List.replicate 16 97 ++ STR_GARLIC_SUFFIX) = some ip' ∧
      getNetwork (fun _ => []) ip' = .unroutable ∧ isI2P ip' = false ∧ isTor ip' = true := by
  refine ⟨pchOnionCat ++ (List.replicate 38 0 ++ PCH_IP64_MARKER), ?_⟩
  decide +kernel

end HiddenService

end Stealth

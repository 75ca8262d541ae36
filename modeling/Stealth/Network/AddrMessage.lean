import Stealth.Chain.Unserialize

/-! The `addr` message: addresses of 16 or 64 bytes, told apart by a marker at the end of the longer ones. -/

namespace Stealth

open Encoding

def CADDR_TIME_VERSION : Int := 61001
def CADDR_IP16_VERSION : Int := 64000
def CADDR_IP64_VERSION : Int := 64200

def IP64_MARKER_START : Nat := 44

def PCH_IP64_MARKER : Bytes :=
  [0x28, 0x5c, 0x59, 0xde, 0x91, 0x18, 0x9e, 0xca, 0xc2, 0x81, 0x47, 0x8a, 0xf7, 0x96, 0x7f, 0x1b, 0xe5, 0x8a, 0xee,
    0xf9]

def serializePort (port : UInt16) : Bytes := (leBytes 2 port.toNat).reverse

def readPort : Reader UInt8 UInt16 := (fun bs => UInt16.ofNat (leValue bs.reverse)) <$> take 2

theorem readsBack_port : ReadsBack (fun _ => True) serializePort readPort := by
  intro port s _
  have hlength : (serializePort port).length = 2 := by rw [serializePort, List.length_reverse, leBytes_length]
  refine ((readsBack_take 2).map hlength _ s).trans ?_
  rw [serializePort, List.reverse_reverse, leValue_leBytes port.toNat_lt, UInt16.ofNat_toNat]

structure CAddress where
  nTime : UInt32
  nServices : UInt64
  ip : Bytes
  port : UInt16
  deriving DecidableEq

namespace CAddress

def isMarkedIP64 (addr : CAddress) : Bool := addr.ip.drop IP64_MARKER_START == PCH_IP64_MARKER

def widen (ip_16 : Bytes) : Bytes := ip_16 ++ (List.replicate 28 0 ++ PCH_IP64_MARKER)

def serialize (nVersion : Int) (addr : CAddress) : Bytes :=
  (if decide (CADDR_TIME_VERSION ≤ nVersion) then serializeUInt32 addr.nTime else []) ++
    (serializeUInt64 addr.nServices ++
      ((if nVersion < CADDR_IP64_VERSION then addr.ip.take 16 else addr.ip) ++ serializePort addr.port))

def readIP (nVersion : Int) : Reader UInt8 Bytes :=
  if nVersion < CADDR_IP64_VERSION then widen <$> take 16 else take 64

def unserialize (nVersion : Int) : Reader UInt8 CAddress := do
  let nTime ← readIf (decide (CADDR_TIME_VERSION ≤ nVersion)) readUInt32 100000000
  let nServices ← readUInt64
  let ip ← readIP nVersion
  let port ← readPort
  pure ⟨nTime, nServices, ip, port⟩

def getSerializeSize (nVersion : Int) : Nat :=
  (if CADDR_TIME_VERSION ≤ nVersion then 4 else 0) + 8 + (if nVersion < CADDR_IP64_VERSION then 16 else 64) + 2

/-- The format of a version can carry the address. -/
structure Fits (nVersion : Int) (addr : CAddress) : Prop where
  length : addr.ip.length = 64
  marked : addr.isMarkedIP64 = true
  narrow : nVersion < CADDR_IP64_VERSION → addr.ip = widen (addr.ip.take 16)

variable {nVersion : Int} {addr : CAddress} {s : Bytes}

theorem readsBack_ip (h : addr.Fits nVersion) (s : Bytes) :
    readIP nVersion ((if nVersion < CADDR_IP64_VERSION then addr.ip.take 16 else addr.ip) ++ s) =
      some (addr.ip, s) := by
  have hlength := h.length
  by_cases hold : nVersion < CADDR_IP64_VERSION
  · rw [readIP, if_pos hold, if_pos hold]
    refine ((readsBack_take 16).map ?_ widen s).trans ?_
    · rw [List.length_take]
      omega
    · rw [← h.narrow hold]
  · rw [readIP, if_neg hold, if_neg hold]
    exact readsBack_take 64 addr.ip s hlength

theorem readsBack_address (hversion : CADDR_TIME_VERSION ≤ nVersion) :
    ReadsBack (Fits nVersion) (serialize nVersion) (unserialize nVersion) := by
  intro addr s h
  have hip : ReadsBack (fun a => Fits nVersion ⟨addr.nTime, addr.nServices, a, addr.port⟩)
      (fun ip => if nVersion < CADDR_IP64_VERSION then ip.take 16 else ip) (readIP nVersion) :=
    fun _ s h => readsBack_ip h s
  simp only [serialize, List.append_assoc]
  rw [unserialize, readsBack_uint32.readIf_bind _ fun _ => trivial, readsBack_uint64.bind trivial, hip.bind h,
    readsBack_port.bind trivial, if_pos (decide_eq_true hversion)]
  rfl

theorem length_serialize (hversion : CADDR_TIME_VERSION ≤ nVersion) (h : addr.Fits nVersion) :
    (addr.serialize nVersion).length = getSerializeSize nVersion := by
  have hlength := h.length
  rw [serialize, if_pos (decide_eq_true hversion), getSerializeSize, if_pos hversion]
  simp only [List.length_append, serializeUInt32, serializeUInt64, serializePort, List.length_reverse, leBytes_length]
  split
  · rw [List.length_take]
    omega
  · omega

/-- Read in the longer format, any message has an address at the place where that format has it. -/
theorem unserialize_ip64 (h : 78 ≤ s.length) : ∃ addr : CAddress,
    unserialize CADDR_IP64_VERSION s = some (addr, s.drop 78) ∧ addr.ip = (s.drop 12).take 64 := by
  rw [unserialize, readIf, if_pos (by decide), readIP, if_neg (by decide), readUInt32, readWord_bind (by omega),
    readUInt64, readWord_bind (by rw [List.length_drop]; omega), List.drop_drop,
    take_bind (by rw [List.length_drop]; omega), List.drop_drop, readPort, map_eq_pure_bind, bind_assoc,
    take_bind (by rw [List.length_drop]; omega), List.drop_drop]
  exact ⟨_, rfl, rfl⟩

end CAddress

open CAddress

/-- The result is the version of the format found, 0 (`none`) for a message that is too short. The message is read in
the longer format on trial. -/
def readAddrOfUnknownSize (nSerVersion : Int) (stream : Bytes) : Option ((Int × CAddress) × Bytes) :=
  if stream.length < getSerializeSize CADDR_IP16_VERSION then none
  else
    let fIP64 := decide (CADDR_IP64_VERSION ≤ nSerVersion) &&
      decide (getSerializeSize CADDR_IP64_VERSION ≤ stream.length) &&
      (unserialize CADDR_IP64_VERSION stream).any fun addrTemp => addrTemp.1.isMarkedIP64
    let nResult := if fIP64 then max CADDR_IP64_VERSION nSerVersion else min CADDR_IP16_VERSION nSerVersion
    (unserialize nResult stream).map fun r => ((nResult, r.1), r.2)

/-- The loop of the message, with `fuel` as a bound on the number of rounds. -/
def readAddrs (nStreamVersion nSerVersion : Int) : Nat → Bytes → Option (List CAddress × Bytes)
  | 0, _ => none
  | fuel + 1, vRecv =>
    if getSerializeSize nStreamVersion ≤ vRecv.length then
      (readAddrOfUnknownSize nSerVersion vRecv).bind fun ((_, addr), rest) =>
        (readAddrs nStreamVersion nSerVersion fuel rest).map fun (vAddr, rest) => (addr :: vAddr, rest)
    else some ([], vRecv)

/-- The addresses of an `addr` message and what is left of it. The count at its front is not compared with the number
of addresses, except for a line in the log. -/
def processAddr (nStreamVersion nVersion : Int) (vRecv : Bytes) : Option (List CAddress × Bytes) :=
  if CADDR_IP64_VERSION < nVersion then readVector (unserialize nStreamVersion) vRecv
  else (readCompactSize vRecv).bind fun (_, rest) => readAddrs nStreamVersion nVersion (rest.length + 1) rest

/-- An address and the format it is written in. -/
structure AddrEntry where
  addr : CAddress
  fIP64 : Bool
  fits : addr.Fits (if fIP64 then CADDR_IP64_VERSION else CADDR_IP16_VERSION)

namespace AddrEntry

def version (e : AddrEntry) : Int := if e.fIP64 then CADDR_IP64_VERSION else CADDR_IP16_VERSION

def serialize (e : AddrEntry) : Bytes := e.addr.serialize e.version

def body (entries : List AddrEntry) : Bytes := entries.flatMap serialize

def message (entries : List AddrEntry) : Bytes := writeCompactSize entries.length ++ body entries

/-- No entry of 16 bytes is followed by the marker at the place of an entry of 64 bytes. -/
def unambiguous : List AddrEntry → Bool
  | [] => true
  | e :: post => (e.fIP64 || ((body (e :: post)).drop 56).take 20 != PCH_IP64_MARKER) && unambiguous post

variable {e : AddrEntry} {entries post : List AddrEntry} {nStreamVersion : Int} {fuel : Nat} {s : Bytes}

theorem time_le_version : CADDR_TIME_VERSION ≤ e.version := by
  rw [version]
  split <;> decide

theorem length_serialize : e.serialize.length = if e.fIP64 then 78 else 30 := by
  rw [serialize, CAddress.length_serialize time_le_version e.fits, version]
  split <;> rfl

theorem unserialize_serialize : unserialize e.version (e.serialize ++ s) = some (e.addr, s) :=
  readsBack_address time_le_version e.addr s e.fits

theorem body_cons : body (e :: post) = e.serialize ++ body post := List.flatMap_cons ..

theorem length_le_body : entries.length ≤ (body entries).length := by
  induction entries with
  | nil => exact le_rfl
  | cons e post ih =>
    rw [body_cons, List.length_append, length_serialize, List.length_cons]
    split <;> omega

theorem readAddrOfUnknownSize_serialize
    (h : e.fIP64 = true ∨ ((e.serialize ++ s).drop 56).take 20 ≠ PCH_IP64_MARKER) :
    readAddrOfUnknownSize CADDR_IP64_VERSION (e.serialize ++ s) = some ((e.version, e.addr), s) := by
  have hlength : (e.serialize ++ s).length = (if e.fIP64 then 78 else 30) + s.length := by
    rw [List.length_append, length_serialize]
  have hread := unserialize_serialize (e := e) (s := s)
  have hshort : ¬ (e.serialize ++ s).length < getSerializeSize CADDR_IP16_VERSION := by
    rw [hlength]
    change ¬ _ < 30
    split <;> omega
  suffices hmark : (decide (CADDR_IP64_VERSION ≤ CADDR_IP64_VERSION) &&
      decide (getSerializeSize CADDR_IP64_VERSION ≤ (e.serialize ++ s).length) &&
      (unserialize CADDR_IP64_VERSION (e.serialize ++ s)).any fun addrTemp => addrTemp.1.isMarkedIP64) = e.fIP64 by
    have hversion : (if e.fIP64 then max CADDR_IP64_VERSION CADDR_IP64_VERSION
        else min CADDR_IP16_VERSION CADDR_IP64_VERSION) = e.version := by
      rw [version]
      split <;> rfl
    simp only [readAddrOfUnknownSize, if_neg hshort, hmark, hversion, hread, Option.map_some]
  cases hfmt : e.fIP64 with
  | true =>
    rw [version, hfmt, if_pos rfl] at hread
    rw [hfmt, if_pos rfl] at hlength
    rw [hread, hlength]
    simp [e.fits.marked, getSerializeSize, CADDR_IP64_VERSION, CADDR_TIME_VERSION]
  | false =>
    by_cases hlong : 78 ≤ (e.serialize ++ s).length
    · obtain ⟨addr, htrial, hip⟩ := unserialize_ip64 hlong
      have hdiffer := h.resolve_left (by rw [hfmt]; exact Bool.false_ne_true)
      have hunmarked : addr.isMarkedIP64 = false := by
        rw [isMarkedIP64, hip, List.drop_take, List.drop_drop]
        exact beq_eq_false_iff_ne.2 hdiffer
      rw [htrial, Option.any_some, hunmarked, Bool.and_false]
    · have hsize : decide (getSerializeSize CADDR_IP64_VERSION ≤ (e.serialize ++ s).length) = false :=
        decide_eq_false hlong
      rw [hsize, Bool.and_false, Bool.false_and]

/-- One round of the loop reads one entry, if the stream's version lets it begin. -/
theorem readAddrs_cons (hsize : getSerializeSize nStreamVersion ≤ (body (e :: post)).length)
    (h : unambiguous (e :: post) = true) :
    readAddrs nStreamVersion CADDR_IP64_VERSION (fuel + 1) (body (e :: post)) =
      (readAddrs nStreamVersion CADDR_IP64_VERSION fuel (body post)).map fun r => (e.addr :: r.1, r.2) := by
  rw [unambiguous, Bool.and_eq_true, Bool.or_eq_true, bne_iff_ne, body_cons] at h
  rw [readAddrs, if_pos hsize, body_cons, readAddrOfUnknownSize_serialize h.1, Option.bind_some]

theorem size_pos : 0 < getSerializeSize nStreamVersion := by
  rw [getSerializeSize]
  omega

theorem readAddrs_nil : readAddrs nStreamVersion CADDR_IP64_VERSION (fuel + 1) (body []) = some ([], []) := by
  have hguard : ¬ getSerializeSize nStreamVersion ≤ (body []).length := Nat.not_le.2 size_pos
  rw [readAddrs, if_neg hguard]
  rfl

def LastFits (nStreamVersion : Int) (entries : List AddrEntry) : Prop :=
  nStreamVersion < CADDR_IP64_VERSION ∨ ∀ e ∈ entries.getLast?, e.fIP64 = true

theorem lastFits_cons (h : LastFits nStreamVersion (e :: post)) : LastFits nStreamVersion post := by
  refine h.imp_right fun hlast => ?_
  cases post with
  | nil => simp
  | cons e' post => rwa [List.getLast?_cons_cons] at hlast

theorem size_le_body (h : LastFits nStreamVersion (e :: post)) :
    getSerializeSize nStreamVersion ≤ (body (e :: post)).length := by
  induction post generalizing e with
  | nil =>
    rw [body_cons, List.length_append, length_serialize, getSerializeSize]
    rcases h with hold | hlast
    · rw [if_pos hold]
      split_ifs <;> omega
    · rw [hlast e rfl, if_pos rfl]
      split_ifs <;> omega
  | cons e' post ih =>
    rw [body_cons, List.length_append]
    exact (ih (lastFits_cons h)).trans (Nat.le_add_left ..)

theorem readAddrs_body (hlast : LastFits nStreamVersion entries) (h : unambiguous entries = true)
    (hfuel : entries.length < fuel) :
    readAddrs nStreamVersion CADDR_IP64_VERSION fuel (body entries) = some (entries.map addr, []) := by
  induction entries generalizing fuel with
  | nil =>
    obtain ⟨fuel, rfl⟩ := Nat.exists_eq_add_of_lt hfuel
    exact readAddrs_nil
  | cons e post ih =>
    obtain ⟨fuel, rfl⟩ := Nat.exists_eq_succ_of_ne_zero (Nat.ne_of_gt (Nat.zero_lt_of_lt hfuel))
    have hpost : unambiguous post = true := (Bool.and_eq_true_iff.1 h).2
    rw [Nat.succ_eq_add_one, readAddrs_cons (size_le_body hlast) h,
      ih (lastFits_cons hlast) hpost (Nat.lt_of_succ_lt_succ hfuel)]
    rfl

/-- With an entry of 16 bytes at the end, the loop leaves part of the message. -/
theorem readAddrs_rest_ne_nil (hversion : CADDR_IP64_VERSION ≤ nStreamVersion) (hshort : e.fIP64 = false)
    (h : unambiguous (entries ++ [e]) = true) {r : List CAddress × Bytes}
    (hr : readAddrs nStreamVersion CADDR_IP64_VERSION fuel (body (entries ++ [e])) = some r) : r.2 ≠ [] := by
  have hsize : getSerializeSize nStreamVersion = 78 := by
    rw [getSerializeSize, if_pos (le_trans (by decide) hversion), if_neg (not_lt.2 hversion)]
  induction entries generalizing fuel r with
  | nil =>
    have hbody : (body [e]).length = 30 := by
      rw [body_cons, List.length_append, length_serialize, hshort]
      rfl
    cases fuel with
    | zero => exact absurd hr (by simp [readAddrs])
    | succ fuel =>
      have hguard : ¬ getSerializeSize nStreamVersion ≤ (body [e]).length := by omega
      rw [List.nil_append, readAddrs, if_neg hguard] at hr
      obtain rfl := Option.some.inj hr
      exact List.ne_nil_of_length_pos (l := body [e]) (by omega)
  | cons e' entries ih =>
    cases fuel with
    | zero => exact absurd hr (by simp [readAddrs])
    | succ fuel =>
      by_cases hguard : getSerializeSize nStreamVersion ≤ (body (e' :: (entries ++ [e]))).length
      · rw [List.cons_append, readAddrs_cons hguard h, Option.map_eq_some_iff] at hr
        obtain ⟨r', hr', rfl⟩ := hr
        exact ih (r := r') (Bool.and_eq_true_iff.1 h).2 hr'
      · rw [List.cons_append, readAddrs, if_neg hguard] at hr
        obtain rfl := Option.some.inj hr
        have hpos : (e' :: (entries ++ [e])).length ≤ (body (e' :: (entries ++ [e]))).length := length_le_body
        exact List.ne_nil_of_length_pos (Nat.lt_of_lt_of_le (Nat.succ_pos _) hpos)

/-- The addresses of a message are read in order and to its end exactly if the loop can begin with the last one. -/
theorem processAddr_message_iff (nStreamVersion : Int) (entries : List AddrEntry)
    (h : unambiguous entries = true) :
    processAddr nStreamVersion CADDR_IP64_VERSION (message entries) = some (entries.map addr, []) ↔
      entries.length % 2 ^ 64 ≤ MAX_SIZE ∧ LastFits nStreamVersion entries := by
  rw [processAddr, if_neg (lt_irrefl _), message, readCompactSize_writeCompactSize]
  by_cases hcount : MAX_SIZE < entries.length % 2 ^ 64
  · rw [if_pos hcount]
    exact iff_of_false (nomatch ·) fun hr => absurd hr.1 (not_le.2 hcount)
  · rw [if_neg hcount]
    change readAddrs nStreamVersion CADDR_IP64_VERSION _ (body entries) = _ ↔ _
    refine ⟨fun hr => ⟨not_lt.1 hcount, ?_⟩, fun hr => ?_⟩
    · by_cases hversion : nStreamVersion < CADDR_IP64_VERSION
      · exact .inl hversion
      · refine .inr fun e he => ?_
        obtain ⟨init, rfl⟩ := List.getLast?_eq_some_iff.1 he
        by_contra hshort
        exact readAddrs_rest_ne_nil (not_lt.1 hversion) (Bool.not_eq_true _ ▸ hshort) h hr rfl
    · exact readAddrs_body hr.2 h (Nat.lt_succ_of_le length_le_body)

def sample (fIP64 : Bool) : AddrEntry where
  addr := ⟨1600000000, 1, widen (List.replicate 16 7), 4437⟩
  fIP64 := fIP64
  fits := ⟨rfl, by decide, fun _ => rfl⟩

theorem processAddr_message_mixed : unambiguous [sample false, sample true] = true ∧
    processAddr CADDR_IP64_VERSION CADDR_IP64_VERSION (message [sample false, sample true]) =
      some ([(sample false).addr, (sample true).addr], []) :=
  have h : unambiguous [sample false, sample true] = true := by decide
  ⟨h, (processAddr_message_iff CADDR_IP64_VERSION [sample false, sample true] h).2
    ⟨by decide, .inr fun e he => by cases he; rfl⟩⟩

/-- An address of 16 bytes at the end of a message is not read. -/
theorem processAddr_leavesLast : unambiguous [sample true, sample false] = true ∧
    processAddr CADDR_IP64_VERSION CADDR_IP64_VERSION (message [sample true, sample false]) =
      some ([(sample true).addr], (sample false).serialize) := by
  decide +kernel

end AddrEntry

end Stealth

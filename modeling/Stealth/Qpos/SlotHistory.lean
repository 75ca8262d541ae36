import Stealth.Qpos.Passage

/-! The produced slots of a queue as packed bits, addressed in machine integers of two widths. -/

namespace Stealth

variable {vch : Bytes} {q : PackedQueue} {ids marked : List UInt32} {nSlot : UInt32}

def bitValue (nBit : UInt32) : UInt32 := 0x80 >>> (nBit % 8)

def bitIsOn32 (vch : Bytes) (nBit : UInt32) : UInt32 :=
  let nByte := nBit / 8
  let nSize := UInt32.ofNat vch.length
  if nByte ≥ nSize then 0 else (vch.getD nByte.toNat 0).toUInt32 &&& bitValue nBit

def setBit32 (vch : Bytes) (nBit : UInt32) : Bytes × UInt32 :=
  let nByte := nBit / 8
  let nSize := UInt32.ofNat vch.length
  if nByte ≥ nSize then (vch, 0)
  else
    let nBitValue := bitValue nBit
    (vch.set nByte.toNat (vch.getD nByte.toNat 0 ||| nBitValue.toUInt8), nBitValue)

structure PackedQueue where
  nCurrentSlot : UInt32
  nSlotTime0 : UInt32
  vStakerIDs : List UInt32
  vchBlockStats : Bytes
  deriving DecidableEq

namespace PackedQueue

def start (nSlotTime0 : UInt32) (vStakerIDs : List UInt32) : PackedQueue where
  nCurrentSlot := 0
  nSlotTime0 := nSlotTime0
  vStakerIDs := vStakerIDs
  vchBlockStats :=
    let nSize := UInt32.ofNat vStakerIDs.length
    List.replicate (if nSize % 8 = 0 then nSize / 8 else nSize / 8 + 1).toNat 0

/-- The sum of a slot and two sizes is a 64 bit one; the address keeps its low 32 bits. -/
def nBit (q : PackedQueue) (nSlot : UInt32) : UInt32 :=
  (nSlot.toUInt64 + UInt64.ofNat q.vchBlockStats.length * 8 - UInt64.ofNat q.vStakerIDs.length).toUInt32

def getStatusForSlot (q : PackedQueue) (nSlot : UInt32) : Bool × QPSlotStatus :=
  if nSlot.toUInt64 ≥ UInt64.ofNat q.vStakerIDs.length then (false, .invalid)
  else if nSlot > q.nCurrentSlot then (true, .future)
  else if bitIsOn32 q.vchBlockStats (q.nBit nSlot) ≠ 0 then (true, .hit)
  else if nSlot = q.nCurrentSlot then (true, .current)
  else (true, .missed)

def slotProduced (q : PackedQueue) (nSlot : UInt32) : PackedQueue × UInt32 :=
  let (vch, n) := setBit32 q.vchBlockStats (q.nBit nSlot)
  ({ q with vchBlockStats := vch }, n)

def incrementSlot (q : PackedQueue) : PackedQueue × Bool :=
  if (q.nCurrentSlot + 1).toUInt64 ≥ UInt64.ofNat q.vStakerIDs.length then (q, false)
  else ({ q with nCurrentSlot := q.nCurrentSlot + 1 }, true)

/-- Queues that increments and marks of slots up to the current one make of a list of identifiers, with
the slots marked so far. -/
inductive Run (nSlotTime0 : UInt32) (vStakerIDs : List UInt32) : List UInt32 → PackedQueue → Prop
  | start : Run nSlotTime0 vStakerIDs [] (start nSlotTime0 vStakerIDs)
  | increment {marked : List UInt32} {q : PackedQueue} (h : Run nSlotTime0 vStakerIDs marked q) :
      Run nSlotTime0 vStakerIDs marked q.incrementSlot.1
  | produced {marked : List UInt32} {q : PackedQueue} (h : Run nSlotTime0 vStakerIDs marked q)
      {nSlot : UInt32} (hle : nSlot ≤ q.nCurrentSlot) :
      Run nSlotTime0 vStakerIDs (nSlot :: marked) (q.slotProduced nSlot).1

end PackedQueue

/-- What a slot is to be reported as, from the number of slots, the marked slots and the current one. -/
def slotReport (nSize : Nat) (marked : List UInt32) (nCurrentSlot nSlot : UInt32) : Bool × QPSlotStatus :=
  if nSize ≤ nSlot.toNat then (false, .invalid)
  else if nSlot ∈ marked then (true, .hit)
  else if nSlot < nCurrentSlot then (true, .missed)
  else if nSlot = nCurrentSlot then (true, .current)
  else (true, .future)

theorem toNat_div_eight (n : UInt32) : (n / 8).toNat = n.toNat / 8 := by
  rw [UInt32.toNat_div]
  rfl

theorem toNat_ofNat_of_lt {n : Nat} (h : n < 2 ^ 32) : (UInt32.ofNat n).toNat = n :=
  UInt32.toNat_ofNat_of_lt' h

theorem mod_eight_eq (n : UInt32) : n % 8 = UInt32.ofNat (n.toNat % 8) := by
  apply UInt32.toNat_inj.1
  rw [UInt32.toNat_mod, toNat_ofNat_of_lt (by omega)]
  rfl

theorem bitValue_toUInt8 (nBit : UInt32) :
    (bitValue nBit).toUInt8 = (0x80 : UInt8) >>> UInt8.ofNat (nBit.toNat % 8) := by
  have hmasks : ∀ a < 8, ((0x80 : UInt32) >>> UInt32.ofNat a).toUInt8 = (0x80 : UInt8) >>> UInt8.ofNat a := by
    decide
  rw [bitValue, mod_eight_eq]
  exact hmasks _ (Nat.mod_lt _ (by decide))

theorem toUInt8_bitValue_toUInt32 (nBit : UInt32) : (bitValue nBit).toUInt8.toUInt32 = bitValue nBit := by
  have hmasks : ∀ a < 8, ((0x80 : UInt32) >>> UInt32.ofNat a).toUInt8.toUInt32 = 0x80 >>> UInt32.ofNat a := by
    decide
  rw [bitValue, mod_eight_eq]
  exact hmasks _ (Nat.mod_lt _ (by decide))

theorem toUInt32_ne_zero (ch : UInt8) : ch.toUInt32 ≠ 0 ↔ ch ≠ 0 := by
  rw [ne_eq, ne_eq, ← UInt32.toNat_inj, ← UInt8.toNat_inj, UInt8.toNat_toUInt32]
  rfl

theorem outside_iff (hsize : vch.length < 2 ^ 32) (nBit : UInt32) :
    nBit / 8 ≥ UInt32.ofNat vch.length ↔ vch.length ≤ nBit.toNat / 8 := by
  rw [ge_iff_le, UInt32.le_iff_toNat_le, toNat_div_eight, toNat_ofNat_of_lt hsize]

theorem bitIsOn32_ne_zero (hsize : vch.length < 2 ^ 32) (nBit : UInt32) :
    bitIsOn32 vch nBit ≠ 0 ↔ bitIsOn vch nBit.toNat = true := by
  unfold bitIsOn32 bitIsOn
  by_cases hout : vch.length ≤ nBit.toNat / 8
  · rw [if_pos ((outside_iff hsize nBit).2 hout), List.getElem?_eq_none hout]
    simp
  · have hlt : nBit.toNat / 8 < vch.length := Nat.not_le.1 hout
    rw [if_neg (mt (outside_iff hsize nBit).1 hout), toNat_div_eight, List.getD_eq_getElem _ _ hlt,
      ← toUInt8_bitValue_toUInt32, ← UInt8.toUInt32_and, toUInt32_ne_zero, bitValue_toUInt8,
      List.getElem?_eq_getElem hlt, decide_eq_true_iff]

theorem setBit32_fst (hsize : vch.length < 2 ^ 32) (nBit : UInt32) :
    (setBit32 vch nBit).1 = (setBit vch nBit.toNat).1 := by
  unfold setBit32 setBit
  by_cases hout : vch.length ≤ nBit.toNat / 8
  · rw [if_pos ((outside_iff hsize nBit).2 hout), List.getElem?_eq_none hout]
  · have hlt : nBit.toNat / 8 < vch.length := Nat.not_le.1 hout
    rw [if_neg (mt (outside_iff hsize nBit).1 hout), toNat_div_eight, List.getD_eq_getElem _ _ hlt,
      List.getElem?_eq_getElem hlt]
    dsimp only
    rw [bitValue_toUInt8]

theorem length_setBit (vch : Bytes) (nBit : Nat) : (setBit vch nBit).1.length = vch.length := by
  unfold setBit
  split
  · rfl
  · exact List.length_set

theorem or_and_ne_zero {a b c : UInt8} (h : a &&& c ≠ 0 ∨ b &&& c ≠ 0) : (a ||| b) &&& c ≠ 0 := by
  intro hzero
  have hsplit : (a.toBitVec &&& c.toBitVec) ||| (b.toBitVec &&& c.toBitVec) = 0#8 := by
    rw [← BitVec.and_or_distrib_right]
    exact congrArg UInt8.toBitVec hzero
  obtain ⟨ha, hb⟩ := BitVec.or_eq_zero_iff.1 hsplit
  rcases h with hne | hne
  · exact hne (UInt8.toBitVec_inj.1 ha)
  · exact hne (UInt8.toBitVec_inj.1 hb)

theorem bitIsOn_setBit_iff {nSet : Nat} (hset : nSet / 8 < vch.length) (nBit : Nat) :
    bitIsOn (setBit vch nSet).1 nBit = true ↔ nBit = nSet ∨ bitIsOn vch nBit = true := by
  constructor
  · intro h
    exact (bitIsOn_setBit h).symm
  · intro h
    rw [setBit, List.getElem?_eq_getElem hset]
    dsimp only
    by_cases hbyte : nSet / 8 = nBit / 8
    · rw [bitIsOn, ← hbyte, List.getElem?_set_self hset, decide_eq_true_iff]
      apply or_and_ne_zero
      rcases h with rfl | hon
      · right
        have hmasks : ∀ a < 8, ((0x80 : UInt8) >>> UInt8.ofNat a) ≠ 0 := by decide
        rw [UInt8.and_self]
        exact hmasks _ (Nat.mod_lt nBit (by decide))
      · left
        rw [bitIsOn, ← hbyte, List.getElem?_eq_getElem hset, decide_eq_true_iff] at hon
        exact hon
    · have hother : nBit ≠ nSet := fun heq => hbyte (by rw [heq])
      rw [bitIsOn, List.getElem?_set_ne hbyte]
      exact h.resolve_left hother

namespace PackedQueue

/-- The queue has fewer than `2 ^ 32` slots and a whole number of bytes for their bits. -/
structure Fits (q : PackedQueue) : Prop where
  slots : q.vStakerIDs.length < 2 ^ 32
  bytes : q.vchBlockStats.length = (q.vStakerIDs.length + 7) / 8
  current : q.nCurrentSlot.toNat < q.vStakerIDs.length ∨ q.nCurrentSlot = 0

theorem Fits.bytes_lt (h : Fits q) : q.vchBlockStats.length < 2 ^ 32 := by
  have hbytes := h.bytes
  have hslots := h.slots
  omega

theorem toNat_size (h : ids.length < 2 ^ 32) : (UInt64.ofNat ids.length).toNat = ids.length :=
  UInt64.toNat_ofNat_of_lt' (Nat.lt_trans h (by decide))

theorem le_size_iff (h : ids.length < 2 ^ 32) (nSlot : UInt32) :
    nSlot.toUInt64 ≥ UInt64.ofNat ids.length ↔ ids.length ≤ nSlot.toNat := by
  rw [ge_iff_le, UInt64.le_iff_toNat_le, toNat_size h, UInt32.toNat_toUInt64]

theorem Fits.toNat_nBit (h : Fits q) (hslot : nSlot.toNat < q.vStakerIDs.length) :
    (q.nBit nSlot).toNat = nSlot.toNat + q.vchBlockStats.length * 8 - q.vStakerIDs.length := by
  have hbytes := h.bytes
  have hslots := h.slots
  have hvch : (UInt64.ofNat q.vchBlockStats.length).toNat = q.vchBlockStats.length :=
    UInt64.toNat_ofNat_of_lt' (Nat.lt_trans h.bytes_lt (by decide))
  have height : (8 : UInt64).toNat = 8 := rfl
  rw [nBit, UInt64.toNat_toUInt32, UInt64.toNat_sub, UInt64.toNat_add, UInt64.toNat_mul, toNat_size hslots, hvch,
    UInt32.toNat_toUInt64, height]
  omega

theorem length_start (nSlotTime0 : UInt32) (h : ids.length < 2 ^ 32) :
    (start nSlotTime0 ids).vchBlockStats.length =
      if ids.length % 8 = 0 then ids.length / 8 else ids.length / 8 + 1 := by
  have hsize := toNat_ofNat_of_lt h
  have hzero : UInt32.ofNat ids.length % 8 = 0 ↔ ids.length % 8 = 0 := by
    rw [← UInt32.toNat_inj, UInt32.toNat_mod, hsize]
    rfl
  rw [start, List.length_replicate]
  simp only [hzero]
  split
  · rw [toNat_div_eight, hsize]
  · rw [UInt32.toNat_add, toNat_div_eight, hsize]
    have hone : (1 : UInt32).toNat = 1 := rfl
    omega

theorem Fits.start (nSlotTime0 : UInt32) (h : ids.length < 2 ^ 32) :
    Fits (PackedQueue.start nSlotTime0 ids) := by
  refine ⟨h, ?_, .inr rfl⟩
  rw [length_start nSlotTime0 h, PackedQueue.start]
  dsimp only
  split <;> omega

theorem incrementSlot_cases (h : Fits q) :
    (q.vStakerIDs.length ≤ q.nCurrentSlot.toNat + 1 ∧ q.incrementSlot = (q, false)) ∨
      (q.nCurrentSlot.toNat + 1 < q.vStakerIDs.length ∧ (q.nCurrentSlot + 1).toNat = q.nCurrentSlot.toNat + 1 ∧
        q.incrementSlot = ({ q with nCurrentSlot := q.nCurrentSlot + 1 }, true)) := by
  have hslots := h.slots
  have hone : (1 : UInt32).toNat = 1 := rfl
  have hnext : (q.nCurrentSlot + 1).toNat = q.nCurrentSlot.toNat + 1 := by
    rw [UInt32.toNat_add, hone]
    rcases h.current with hcurrent | hcurrent
    · omega
    · rw [hcurrent]
      rfl
  have hiff := le_size_iff hslots (q.nCurrentSlot + 1)
  rw [hnext] at hiff
  unfold incrementSlot
  by_cases hlast : q.vStakerIDs.length ≤ q.nCurrentSlot.toNat + 1
  · exact .inl ⟨hlast, if_pos (hiff.2 hlast)⟩
  · exact .inr ⟨Nat.not_le.1 hlast, hnext, if_neg (mt hiff.1 hlast)⟩

theorem Fits.incrementSlot (h : Fits q) : Fits q.incrementSlot.1 := by
  rcases incrementSlot_cases h with ⟨-, hq⟩ | ⟨hlt, hnext, hq⟩
  · rw [hq]
    exact h
  · rw [hq]
    exact ⟨h.slots, h.bytes, .inl (hnext ▸ hlt)⟩

theorem slotProduced_fst (h : Fits q) (nSlot : UInt32) : (q.slotProduced nSlot).1 =
      { q with vchBlockStats := (setBit q.vchBlockStats (q.nBit nSlot).toNat).1 } := by
  rw [← setBit32_fst h.bytes_lt]
  rfl

theorem Fits.slotProduced (h : Fits q) (nSlot : UInt32) : Fits (q.slotProduced nSlot).1 := by
  rw [slotProduced_fst h]
  exact ⟨h.slots, (length_setBit _ _).trans h.bytes, h.current⟩

/-- The bits of the queue are those of the marked slots, and no slot after the current one is marked. -/
structure Keeps (marked : List UInt32) (q : PackedQueue) : Prop where
  bits : ∀ nSlot : UInt32, nSlot.toNat < q.vStakerIDs.length →
    (bitIsOn32 q.vchBlockStats (q.nBit nSlot) ≠ 0 ↔ nSlot ∈ marked)
  reached : ∀ nSlot ∈ marked, nSlot ≤ q.nCurrentSlot

theorem Keeps.start (nSlotTime0 : UInt32) (h : ids.length < 2 ^ 32) :
    Keeps [] (PackedQueue.start nSlotTime0 ids) := by
  refine ⟨fun nSlot _ => ?_, fun _ hmem => absurd hmem List.not_mem_nil⟩
  rw [bitIsOn32_ne_zero (Fits.start nSlotTime0 h).bytes_lt]
  have hoff := bitIsOn_replicate_zero
  constructor
  · intro hon
    exact absurd (hon.symm.trans (hoff _ _)) (by decide)
  · intro hmem
    exact absurd hmem List.not_mem_nil

theorem Keeps.incrementSlot (h : Keeps marked q) (hfits : Fits q) : Keeps marked q.incrementSlot.1 := by
  rcases incrementSlot_cases hfits with ⟨-, hq⟩ | ⟨-, hnext, hq⟩
  · rw [hq]
    exact h
  · rw [hq]
    refine ⟨h.bits, fun nSlot hmem => ?_⟩
    have hle := UInt32.le_iff_toNat_le.1 (h.reached nSlot hmem)
    rw [UInt32.le_iff_toNat_le]
    dsimp only
    omega

variable {nSlotTime0 nOther : UInt32}

theorem Fits.nBit_inj (h : Fits q) (hslot : nSlot.toNat < q.vStakerIDs.length)
    (hother : nOther.toNat < q.vStakerIDs.length) :
    (q.nBit nOther).toNat = (q.nBit nSlot).toNat ↔ nOther = nSlot := by
  have hbytes := h.bytes
  rw [h.toNat_nBit hslot, h.toNat_nBit hother, ← UInt32.toNat_inj]
  omega

theorem Fits.nBit_inside (h : Fits q)
    (hslot : nSlot.toNat < q.vStakerIDs.length) : (q.nBit nSlot).toNat / 8 < q.vchBlockStats.length := by
  have hbytes := h.bytes
  rw [h.toNat_nBit hslot]
  omega

theorem bitIsOn32_slotProduced (h : Fits q) (hslot : nSlot.toNat < q.vStakerIDs.length)
    (hother : nOther.toNat < q.vStakerIDs.length) :
    bitIsOn32 (q.slotProduced nSlot).1.vchBlockStats ((q.slotProduced nSlot).1.nBit nOther) ≠ 0 ↔
      nOther = nSlot ∨ bitIsOn32 q.vchBlockStats (q.nBit nOther) ≠ 0 := by
  have hbit : (q.slotProduced nSlot).1.nBit nOther = q.nBit nOther := by
    rw [slotProduced_fst h]
    unfold nBit
    rw [length_setBit]
  rw [hbit, bitIsOn32_ne_zero (h.slotProduced nSlot).bytes_lt, bitIsOn32_ne_zero h.bytes_lt,
    slotProduced_fst h, bitIsOn_setBit_iff (h.nBit_inside hslot), h.nBit_inj hslot hother]

theorem Keeps.slotProduced (h : Keeps marked q) (hfits : Fits q)
    (hle : nSlot ≤ q.nCurrentSlot) : Keeps (nSlot :: marked) (q.slotProduced nSlot).1 := by
  constructor
  · intro nOther hother
    have hslot : nSlot.toNat < q.vStakerIDs.length := by
      have hnat := UInt32.le_iff_toNat_le.1 hle
      have hpos : nOther.toNat < q.vStakerIDs.length := hother
      rcases hfits.current with hcurrent | hcurrent
      · omega
      · have hzero : q.nCurrentSlot.toNat = 0 := by rw [hcurrent]; rfl
        omega
    rw [bitIsOn32_slotProduced hfits hslot hother, h.bits nOther hother, List.mem_cons]
  · intro nOther hmem
    rcases List.mem_cons.1 hmem with rfl | hmem
    · exact hle
    · exact h.reached nOther hmem

theorem Run.keeps (h : Run nSlotTime0 ids marked q) (hsize : ids.length < 2 ^ 32) :
    q.vStakerIDs = ids ∧ Fits q ∧ Keeps marked q := by
  induction h with
  | start => exact ⟨rfl, Fits.start nSlotTime0 hsize, Keeps.start nSlotTime0 hsize⟩
  | @increment marked q _ ih =>
    obtain ⟨hids, hfits, hkeeps⟩ := ih
    refine ⟨?_, hfits.incrementSlot, hkeeps.incrementSlot hfits⟩
    rcases incrementSlot_cases hfits with ⟨-, hq⟩ | ⟨-, -, hq⟩
    · rw [hq, hids]
    · rw [hq, ← hids]
  | @produced marked q _ nSlot hle ih =>
    obtain ⟨hids, hfits, hkeeps⟩ := ih
    exact ⟨hids, hfits.slotProduced nSlot, hkeeps.slotProduced hfits hle⟩

theorem Keeps.getStatusForSlot (h : Keeps marked q) (hfits : Fits q) (nSlot : UInt32) :
    q.getStatusForSlot nSlot = slotReport q.vStakerIDs.length marked q.nCurrentSlot nSlot := by
  unfold PackedQueue.getStatusForSlot slotReport
  by_cases hout : q.vStakerIDs.length ≤ nSlot.toNat
  · rw [if_pos hout, if_pos ((le_size_iff hfits.slots nSlot).2 hout)]
  · rw [if_neg hout, if_neg (mt (le_size_iff hfits.slots nSlot).1 hout)]
    simp only [h.bits nSlot (Nat.not_le.1 hout)]
    have hreached := h.reached nSlot
    by_cases hmem : nSlot ∈ marked
    · rw [if_neg (UInt32.not_lt.2 (hreached hmem)), if_pos hmem, if_pos hmem]
    · rw [if_neg hmem, if_neg hmem]
      by_cases hfuture : q.nCurrentSlot < nSlot
      · have hne : nSlot ≠ q.nCurrentSlot := fun heq => UInt32.lt_irrefl _ (heq ▸ hfuture)
        rw [if_pos hfuture, if_neg (UInt32.not_lt.2 (UInt32.le_of_lt hfuture)), if_neg hne]
      · rw [if_neg hfuture]
        by_cases hcurrent : nSlot = q.nCurrentSlot
        · rw [if_pos hcurrent, if_neg (hcurrent ▸ UInt32.lt_irrefl nSlot), if_pos hcurrent]
        · have hlt := UInt32.lt_of_le_of_ne (UInt32.not_lt.1 hfuture) hcurrent
          rw [if_neg hcurrent, if_pos hlt]

theorem run_getStatusForSlot {ids marked : List UInt32} {q : PackedQueue} (hsize : ids.length < 2 ^ 32)
    (h : Run nSlotTime0 ids marked q) :
    (∀ nSlot, q.getStatusForSlot nSlot = slotReport ids.length marked q.nCurrentSlot nSlot) ∧
      ∀ nSlot ≤ q.nCurrentSlot, ∀ nOther ≠ nSlot,
        (q.slotProduced nSlot).1.getStatusForSlot nOther = q.getStatusForSlot nOther := by
  have hreport : ∀ {marked : List UInt32} {q : PackedQueue}, Run nSlotTime0 ids marked q →
      ∀ nSlot, q.getStatusForSlot nSlot = slotReport ids.length marked q.nCurrentSlot nSlot := by
    intro marked q hrun nSlot
    obtain ⟨hids, hfits, hkeeps⟩ := hrun.keeps hsize
    rw [← hids]
    exact hkeeps.getStatusForSlot hfits nSlot
  refine ⟨hreport h, fun nSlot hle nOther hne => ?_⟩
  rw [hreport h, hreport (h.produced hle)]
  have hmem : nOther ∈ nSlot :: marked ↔ nOther ∈ marked := by
    rw [List.mem_cons, or_iff_right hne]
  simp only [slotReport, hmem]
  rfl

def toQueue (q : PackedQueue) : QPQueue where
  nCurrentSlot := q.nCurrentSlot.toNat
  nSlotTime0 := q.nSlotTime0
  vStakerIDs := q.vStakerIDs.map UInt32.toNat
  vchBlockStats := q.vchBlockStats

theorem toQueue_start (nSlotTime0 : UInt32) (h : ids.length < 2 ^ 32) :
    (start nSlotTime0 ids).toQueue = .start nSlotTime0 (ids.map UInt32.toNat) := by
  have hbytes := List.eq_replicate_of_mem (l := (start nSlotTime0 ids).vchBlockStats) fun _ => List.eq_of_mem_replicate
  rw [length_start nSlotTime0 h] at hbytes
  rw [toQueue, hbytes, QPQueue.start, List.length_map]
  rfl

theorem Fits.toQueue_incrementSlot (h : Fits q) :
    q.incrementSlot.1.toQueue = q.toQueue.incrementSlot.getD q.toQueue := by
  rw [QPQueue.incrementSlot, toQueue, toQueue, List.length_map]
  rcases incrementSlot_cases h with ⟨hle, hq⟩ | ⟨hlt, hnext, hq⟩
  · rw [hq, if_pos hle]
    rfl
  · rw [hq, if_neg (Nat.not_le.2 hlt), ← hnext]
    rfl

theorem Fits.toQueue_slotProduced (h : Fits q) (hslot : nSlot.toNat < q.vStakerIDs.length) :
    (q.slotProduced nSlot).1.toQueue = (q.toQueue.slotProduced nSlot.toNat).1 := by
  rw [slotProduced_fst h, h.toNat_nBit hslot, QPQueue.slotProduced, toQueue, toQueue, List.length_map]

theorem Fits.getStatusForSlot_toQueue (h : Fits q) (nSlot : UInt32) :
    (q.getStatusForSlot nSlot).2 = q.toQueue.getStatusForSlot nSlot.toNat := by
  rw [getStatusForSlot, QPQueue.getStatusForSlot, toQueue, List.length_map]
  by_cases hout : q.vStakerIDs.length ≤ nSlot.toNat
  · rw [if_pos hout, if_pos ((le_size_iff h.slots nSlot).2 hout)]
  · rw [if_neg hout, if_neg (mt (le_size_iff h.slots nSlot).1 hout), ← h.toNat_nBit (Nat.not_le.1 hout)]
    simp only [bitIsOn32_ne_zero h.bytes_lt, gt_iff_lt, UInt32.lt_iff_toNat_lt, UInt32.toNat_inj]
    split_ifs <;> rfl

/-- The machine integers of a run do what the queue of the registry does with unbounded numbers. -/
theorem Run.refines (h : Run nSlotTime0 ids marked q) (hsize : ids.length < 2 ^ 32) :
    (PackedQueue.start nSlotTime0 ids).toQueue = .start nSlotTime0 (ids.map UInt32.toNat) ∧
      q.incrementSlot.1.toQueue = q.toQueue.incrementSlot.getD q.toQueue ∧
      (∀ nSlot : UInt32, nSlot.toNat < ids.length →
        (q.slotProduced nSlot).1.toQueue = (q.toQueue.slotProduced nSlot.toNat).1) ∧
      ∀ nSlot, (q.getStatusForSlot nSlot).2 = q.toQueue.getStatusForSlot nSlot.toNat := by
  obtain ⟨hids, hfits, -⟩ := h.keeps hsize
  rw [← hids] at hsize ⊢
  exact ⟨toQueue_start nSlotTime0 hsize, hfits.toQueue_incrementSlot, fun _ => hfits.toQueue_slotProduced,
    hfits.getStatusForSlot_toQueue⟩

/-- Nine slots need two bytes; the first slot has passed without a mark and the second one is marked. -/
theorem run_getStatusForSlot_nine :
    (((start 0 (List.replicate 9 1)).incrementSlot.1.slotProduced 1).1.getStatusForSlot 0 = (true, .missed)) ∧
      ((start 0 (List.replicate 9 1)).incrementSlot.1.slotProduced 1).1.getStatusForSlot 1 = (true, .hit) := by
  have hrun : Run 0 (List.replicate 9 1) [1]
      ((start 0 (List.replicate 9 1)).incrementSlot.1.slotProduced 1).1 :=
    Run.start.increment.produced (by decide)
  have hreport := (run_getStatusForSlot (by decide) hrun).1
  rw [hreport 0, hreport 1]
  decide

/-- The constructor computes the number of bytes from the low 32 bits of the number of slots. -/
theorem start_of_length_eq (h : ids.length = 2 ^ 32) (nSlotTime0 : UInt32) :
    start nSlotTime0 ids = ⟨0, nSlotTime0, ids, []⟩ := by
  rw [start, h]
  rfl

theorem getStatusForSlot_unmarked_of_length_eq (h : ids.length = 2 ^ 32) :
    ((start 0 ids).slotProduced 0).1.getStatusForSlot 0 = (true, .current) := by
  have hmark : ((start 0 ids).slotProduced 0).1 = ⟨0, 0, ids, []⟩ := by
    rw [start_of_length_eq h]
    rfl
  rw [hmark, getStatusForSlot, h]
  rfl

/-- In a queue of `2 ^ 32` slots there is no bit for a slot, and a marked slot is not reported as hit. -/
theorem getStatusForSlot_marked_current :
    ∃ (ids : List UInt32) (q : PackedQueue), Run 0 ids [0] q ∧ q.getStatusForSlot 0 = (true, .current) ∧
      slotReport ids.length [0] q.nCurrentSlot 0 = (true, .hit) := by
  have hlength : (List.replicate (2 ^ 32) (1 : UInt32)).length = 2 ^ 32 := List.length_replicate
  refine ⟨_, _, Run.start.produced (UInt32.le_refl 0), getStatusForSlot_unmarked_of_length_eq hlength, ?_⟩
  rw [hlength]
  rfl

end PackedQueue

end Stealth

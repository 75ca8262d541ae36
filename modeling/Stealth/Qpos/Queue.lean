import Stealth.ChainParams

/-! The slot queue of one round. Slot times are 32 bit machine integers. -/

namespace Stealth

def QP_TARGET_SPACING : UInt32 := 5

def bitIsOn (vch : Bytes) (nBit : Nat) : Bool :=
  match vch[nBit / 8]? with
  | none => false
  | some ch => ch &&& ((0x80 : UInt8) >>> UInt8.ofNat (nBit % 8)) ≠ 0

/-- Set a bit; the result is zero exactly when the bit is outside the vector. -/
def setBit (vch : Bytes) (nBit : Nat) : Bytes × UInt32 :=
  match vch[nBit / 8]? with
  | none => (vch, 0)
  | some ch =>
    let nBitValue := (0x80 : UInt8) >>> UInt8.ofNat (nBit % 8)
    (vch.set (nBit / 8) (ch ||| nBitValue), nBitValue.toUInt32)

inductive QPSlotStatus where
  | invalid | missed | hit | current | future
  deriving DecidableEq, Repr

structure QPQueue where
  nCurrentSlot : Nat
  nSlotTime0 : UInt32
  vStakerIDs : List Nat
  vchBlockStats : Bytes
  deriving DecidableEq

namespace QPQueue

def null : QPQueue := ⟨0, 0, [], []⟩

def start (nSlotTime0 : UInt32) (vStakerIDs : List Nat) : QPQueue where
  nCurrentSlot := 0
  nSlotTime0 := nSlotTime0
  vStakerIDs := vStakerIDs
  vchBlockStats :=
    List.replicate
      (if vStakerIDs.length % 8 = 0 then vStakerIDs.length / 8 else vStakerIDs.length / 8 + 1) 0

variable (q : QPQueue)

def size : Nat := q.vStakerIDs.length

def isEmpty : Bool := q.vStakerIDs.isEmpty

def getSlotForID (nID : Nat) : Option Nat :=
  q.vStakerIDs.findIdx? (· == nID)

def slotStart (nSlot : Nat) : UInt32 :=
  q.nSlotTime0 + QP_TARGET_SPACING * UInt32.ofNat nSlot

def getWindowForID (nID : Nat) : Option (UInt32 × UInt32) :=
  (q.getSlotForID nID).map fun slot =>
    (q.slotStart slot, q.slotStart slot + QP_TARGET_SPACING - 1)

def getStatusForSlot (nSlot : Nat) : QPSlotStatus :=
  if nSlot ≥ q.vStakerIDs.length then .invalid
  else if nSlot > q.nCurrentSlot then .future
  else if bitIsOn q.vchBlockStats (nSlot + q.vchBlockStats.length * 8 - q.vStakerIDs.length) then .hit
  else if nSlot = q.nCurrentSlot then .current
  else .missed

def getMaxTime : UInt32 :=
  q.nSlotTime0 + QP_TARGET_SPACING * UInt32.ofNat q.vStakerIDs.length - 1

def getSlotForTime (nTime : UInt32) : Option Nat :=
  if nTime < q.nSlotTime0 then none
  else if nTime > q.getMaxTime then none
  else some ((nTime - q.nSlotTime0) / QP_TARGET_SPACING).toNat

def getCurrentSlotStart : UInt32 := q.slotStart q.nCurrentSlot

def getCurrentSlotEnd : UInt32 :=
  q.slotStart q.nCurrentSlot + QP_TARGET_SPACING - 1

def timeIsInCurrentSlotWindow (nTime : UInt32) : Bool :=
  q.getCurrentSlotStart ≤ nTime && nTime ≤ q.getCurrentSlotEnd

/-- `vStakerIDs[nCurrentSlot]`; the slot is in range in every queue the registry runs. -/
def getCurrentID : Nat := q.vStakerIDs.getD q.nCurrentSlot 0

/-- Mark a slot as produced; the result is zero exactly when there is no such slot. -/
def slotProduced (nSlot : Nat) : QPQueue × UInt32 :=
  let (vch, n) := setBit q.vchBlockStats (nSlot + q.vchBlockStats.length * 8 - q.vStakerIDs.length)
  ({ q with vchBlockStats := vch }, n)

/-- Advance to the next slot, or report that the current slot is the last one. -/
def incrementSlot : Option QPQueue :=
  if q.nCurrentSlot + 1 ≥ q.vStakerIDs.length then none
  else some { q with nCurrentSlot := q.nCurrentSlot + 1 }

end QPQueue

end Stealth

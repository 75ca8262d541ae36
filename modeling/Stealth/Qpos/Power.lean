import Stealth.ChainParams

/-! Staker weights in 32 bits and power in 64 bits; sums and products wrap as they do in the source. -/

namespace Stealth

/-- `bit_length_table`: nine fives and thirty-nine sixes, as the table has them. -/
def bitLengthTable : List UInt32 :=
  [255, 1] ++ List.replicate 2 2 ++ List.replicate 4 3 ++ List.replicate 8 4 ++
    List.replicate 9 5 ++ List.replicate 39 6 ++ List.replicate 64 7 ++ List.replicate 128 8

def bitLength (v : UInt32) : UInt32 :=
  if v &&& 0xff000000 ≠ 0 then (24 : UInt32) + bitLengthTable.getD (v >>> 24).toNat 0
  else if v &&& 0xffff0000 ≠ 0 then (16 : UInt32) + bitLengthTable.getD (v >>> 16).toNat 0
  else if v &&& 0xffffff00 ≠ 0 then (8 : UInt32) + bitLengthTable.getD (v >>> 8).toNat 0
  else bitLengthTable.getD v.toNat 0

/-- The Newton loop of `uisqrt`. The estimate strictly decreases, so its first value bounds the
number of iterations. -/
def uisqrtLoop (n : UInt32) : Nat → UInt32 → UInt32
  | 0, x => x
  | fuel + 1, x =>
    let y := (x + n / x) >>> 1
    if y < x then uisqrtLoop n fuel y else x

def uisqrt (n : UInt32) : UInt32 :=
  if n = 0 then 0
  else
    let b := bitLength n
    let x := (1 : UInt32) <<< (b >>> 1)
    let x := if b ^^^ x ≠ 0 then x <<< 1 else x
    uisqrtLoop n x.toNat x

def TRIL : UInt64 := 1000000000000

def QP_MIN_PICO_POWER : UInt64 := 510000000000

structure QPPowerElement where
  nStakerID : Nat
  nWeight : UInt32
  fDidProduceBlock : Bool
  deriving DecidableEq

structure QPPowerRound where
  vElements : List QPPowerElement
  deriving DecidableEq

namespace QPPowerRound

def null : QPPowerRound := ⟨[]⟩

def getWeight (round : QPPowerRound) : UInt32 :=
  round.vElements.foldl (fun n e => if e.fDidProduceBlock then n + e.nWeight else n) 0

def getTotalWeight (round : QPPowerRound) : UInt32 :=
  round.vElements.foldl (fun n e => n + e.nWeight) 0

def isEmpty (round : QPPowerRound) : Bool := round.vElements.isEmpty

def pushBack (round : QPPowerRound) (nStakerID : Nat) (nWeight : UInt32) (fDidProduceBlock : Bool) :
    QPPowerRound :=
  ⟨round.vElements ++ [⟨nStakerID, nWeight, fDidProduceBlock⟩]⟩

end QPPowerRound

end Stealth

import Mathlib.Data.List.GetD
import Stealth.ChainParams

/-!
The choice of `CAddrMan::SelectTried`: each iteration remembers the place an entry was drawn from, which
then holds another one.
-/

namespace Stealth

/-- What the choice reads of an entry of `mapInfo`. -/
structure CAddrInfo where
  nLastSuccess : Int := 0

def ADDRMAN_TRIED_ENTRIES_INSPECT_ON_EVICT : Nat := 4

namespace CAddrInfo

def lastSuccess (mapInfo : Map Nat CAddrInfo) (nId : Nat) : Int := (mapInfo.getD nId {}).nLastSuccess

end CAddrInfo

open CAddrInfo

/-- The bucket and the variables of the loop; `none` stands for -1. -/
structure TriedSearch where
  vTried : List Nat
  nOldest : Option Nat := none
  nOldestPos : Option Nat := none

/-- `GetRandInt(vTried.size() - i) + i` for a bucket of `n` entries. -/
def drawn (rand : Nat → Nat) (n i : Nat) : Nat := rand i % (n - i) + i

section Select

variable (mapInfo : Map Nat CAddrInfo) (rand : Nat → Nat)

def inspect (s : TriedSearch) (i : Nat) : TriedSearch :=
  let nPos := drawn rand s.vTried.length i
  let nTemp := s.vTried.getD nPos 0
  let vTried := (s.vTried.set nPos (s.vTried.getD i 0)).set i nTemp
  if s.nOldest.all fun nOldest => lastSuccess mapInfo nTemp < lastSuccess mapInfo nOldest then
    ⟨vTried, some nTemp, some nPos⟩
  else ⟨vTried, s.nOldest, s.nOldestPos⟩

def searchTried (vTried : List Nat) (k : Nat) : TriedSearch :=
  (List.range k).foldl (inspect mapInfo rand) { vTried := vTried }

def inspectedSize (vTried : List Nat) : Nat := min ADDRMAN_TRIED_ENTRIES_INSPECT_ON_EVICT vTried.length

def selectTried (vTried : List Nat) : List Nat × Option Nat :=
  let s := searchTried mapInfo rand vTried (inspectedSize vTried)
  (s.vTried, s.nOldestPos)

def drawnEntry (vTried : List Nat) (i : Nat) : Nat :=
  (searchTried mapInfo rand vTried i).vTried.getD (drawn rand vTried.length i) 0

def inspected (vTried : List Nat) : List Nat :=
  (List.range (inspectedSize vTried)).map (drawnEntry mapInfo rand vTried)

/-- Iteration `i` is the first of the first `k` that draws an entry with their smallest time. -/
structure FirstOldest (vTried : List Nat) (k i : Nat) : Prop where
  lt : i < k
  before : ∀ j < i, lastSuccess mapInfo (drawnEntry mapInfo rand vTried i) <
    lastSuccess mapInfo (drawnEntry mapInfo rand vTried j)
  all : ∀ j < k, lastSuccess mapInfo (drawnEntry mapInfo rand vTried i) ≤
    lastSuccess mapInfo (drawnEntry mapInfo rand vTried j)

end Select

variable {mapInfo : Map Nat CAddrInfo} {rand : Nat → Nat} {vTried : List Nat} {i j k : Nat}

theorem drawn_lt {n : Nat} (h : i < n) : drawn rand n i < n := by
  have hmod := Nat.mod_lt (rand i) (Nat.sub_pos_of_lt h)
  rw [drawn]
  omega

theorem searchTried_succ (k : Nat) : searchTried mapInfo rand vTried (k + 1) =
    inspect mapInfo rand (searchTried mapInfo rand vTried k) k := by
  rw [searchTried, List.range_succ, List.foldl_append]
  rfl

theorem inspect_vTried (s : TriedSearch) (i : Nat) : (inspect mapInfo rand s i).vTried =
    (s.vTried.set (drawn rand s.vTried.length i) (s.vTried.getD i 0)).set i
      (s.vTried.getD (drawn rand s.vTried.length i) 0) := by
  rw [inspect]
  split <;> rfl

theorem length_searchTried (mapInfo : Map Nat CAddrInfo) (rand : Nat → Nat) (vTried : List Nat) (k : Nat) :
    (searchTried mapInfo rand vTried k).vTried.length = vTried.length := by
  induction k with
  | zero => rfl
  | succ k ih => rw [searchTried_succ, inspect_vTried, List.length_set, List.length_set, ih]

theorem perm_searchTried (hk : k ≤ vTried.length) : (searchTried mapInfo rand vTried k).vTried.Perm vTried := by
  induction k with
  | zero => exact List.Perm.refl _
  | succ k ih =>
    have hlen := length_searchTried mapInfo rand vTried k
    have hpos : drawn rand vTried.length k < (searchTried mapInfo rand vTried k).vTried.length := by
      rw [hlen]
      exact drawn_lt hk
    have hlt : k < (searchTried mapInfo rand vTried k).vTried.length := hlen.symm ▸ hk
    rw [searchTried_succ, inspect_vTried, hlen, List.getD_eq_getElem _ _ hlt, List.getD_eq_getElem _ _ hpos]
    exact (List.set_set_perm hpos hlt).trans (ih (Nat.le_of_succ_le hk))

/-- An inspected entry stays at the place of its iteration. -/
theorem getElem?_searchTried (hk : k ≤ vTried.length) (hi : i < k) :
    (searchTried mapInfo rand vTried k).vTried[i]? = some (drawnEntry mapInfo rand vTried i) := by
  induction k with
  | zero => exact absurd hi (Nat.not_lt_zero _)
  | succ k ih =>
    rw [searchTried_succ, inspect_vTried, length_searchTried]
    rcases Nat.lt_succ_iff_lt_or_eq.1 hi with hlt | rfl
    · have hle : k ≤ drawn rand vTried.length k := Nat.le_add_left ..
      rw [List.getElem?_set_ne (Nat.ne_of_gt hlt), List.getElem?_set_ne (by omega)]
      exact ih (Nat.le_of_succ_le hk) hlt
    · rw [List.getElem?_set_self (by rw [List.length_set, length_searchTried]; exact hk)]
      rfl

/-- After `k` iterations the entry remembered is the oldest of those drawn, and the position the one it was drawn
from. -/
theorem oldest_searchTried (mapInfo : Map Nat CAddrInfo) (rand : Nat → Nat) (vTried : List Nat) (k : Nat) :
    (k = 0 ∧ (searchTried mapInfo rand vTried k).nOldest = none ∧
        (searchTried mapInfo rand vTried k).nOldestPos = none) ∨
      ∃ i, FirstOldest mapInfo rand vTried k i ∧
        (searchTried mapInfo rand vTried k).nOldest = some (drawnEntry mapInfo rand vTried i) ∧
        (searchTried mapInfo rand vTried k).nOldestPos = some (drawn rand vTried.length i) := by
  induction k with
  | zero => exact .inl ⟨rfl, rfl, rfl⟩
  | succ k ih =>
    right
    have hentry : (searchTried mapInfo rand vTried k).vTried.getD
        (drawn rand (searchTried mapInfo rand vTried k).vTried.length k) 0 = drawnEntry mapInfo rand vTried k := by
      rw [length_searchTried, drawnEntry]
    rw [searchTried_succ, inspect, hentry, length_searchTried]
    rcases ih with ⟨rfl, hnone, -⟩ | ⟨i, hi, hold, hpos⟩
    · rw [hnone, Option.all_none, if_pos rfl]
      refine ⟨0, ⟨Nat.one_pos, fun j hj => absurd hj (Nat.not_lt_zero _), ?_⟩, rfl, rfl⟩
      intro j hj
      obtain rfl := Nat.lt_one_iff.1 hj
      exact le_rfl
    · rw [hold, Option.all_some]
      split
      · next hlt =>
        have hlt := of_decide_eq_true hlt
        have hbelow : ∀ j < k, lastSuccess mapInfo (drawnEntry mapInfo rand vTried k) <
            lastSuccess mapInfo (drawnEntry mapInfo rand vTried j) :=
          fun j hj => lt_of_lt_of_le hlt (hi.all j hj)
        refine ⟨k, ⟨Nat.lt_succ_self k, hbelow, ?_⟩, rfl, rfl⟩
        intro j hj
        rcases Nat.lt_succ_iff_lt_or_eq.1 hj with hj | rfl
        · exact (hbelow j hj).le
        · exact le_rfl
      · next hge =>
        refine ⟨i, ⟨Nat.lt_succ_of_lt hi.lt, hi.before, ?_⟩, rfl, hpos⟩
        intro j hj
        rcases Nat.lt_succ_iff_lt_or_eq.1 hj with hj | rfl
        · exact hi.all j hj
        · exact not_lt.1 fun hlt => hge (decide_eq_true hlt)

theorem FirstOldest.unique (h : FirstOldest mapInfo rand vTried k i) (h' : FirstOldest mapInfo rand vTried k j) :
    i = j := by
  rcases Nat.lt_trichotomy i j with hlt | heq | hgt
  · exact absurd (h'.before i hlt) (not_lt.2 (h.all j h'.lt))
  · exact heq
  · exact absurd (h.before j hgt) (not_lt.2 (h'.all i h.lt))

/-- The position returned holds an inspected entry with the smallest time of all inspected ones. -/
def HoldsOldest (mapInfo : Map Nat CAddrInfo) (rand : Nat → Nat) (vTried : List Nat) (nPos : Nat) : Prop :=
  ∃ nId ∈ inspected mapInfo rand vTried, (selectTried mapInfo rand vTried).1[nPos]? = some nId ∧
    ∀ nId' ∈ inspected mapInfo rand vTried, lastSuccess mapInfo nId ≤ lastSuccess mapInfo nId'

theorem mem_inspected {nId : Nat} : nId ∈ inspected mapInfo rand vTried ↔
    ∃ j < inspectedSize vTried, drawnEntry mapInfo rand vTried j = nId := by
  rw [inspected, List.mem_map]
  simp only [List.mem_range]

theorem holdsOldest_iff (hnodup : vTried.Nodup) (hi : FirstOldest mapInfo rand vTried (inspectedSize vTried) i)
    (hj : j < vTried.length) : HoldsOldest mapInfo rand vTried j ↔ j < inspectedSize vTried ∧
      lastSuccess mapInfo (drawnEntry mapInfo rand vTried j) =
        lastSuccess mapInfo (drawnEntry mapInfo rand vTried i) := by
  have hle : inspectedSize vTried ≤ vTried.length := Nat.min_le_right ..
  constructor
  · rintro ⟨nId, hmem, hget, hmin⟩
    obtain ⟨j', hj', rfl⟩ := mem_inspected.1 hmem
    have hget' : (selectTried mapInfo rand vTried).1[j']? = some (drawnEntry mapInfo rand vTried j') :=
      getElem?_searchTried hle hj'
    -- the entries of the bucket are different, so it is inspected at its own place only
    have hlen : j < (selectTried mapInfo rand vTried).1.length := (length_searchTried ..).symm ▸ hj
    obtain rfl := (List.getElem?_inj hlen ((perm_searchTried hle).nodup_iff.2 hnodup)).1 (hget.trans hget'.symm)
    exact ⟨hj', le_antisymm (hmin _ (mem_inspected.2 ⟨i, hi.lt, rfl⟩)) (hi.all j hj')⟩
  · rintro ⟨hlt, heq⟩
    refine ⟨_, mem_inspected.2 ⟨j, hlt, rfl⟩, getElem?_searchTried hle hlt, ?_⟩
    intro nId' hmem
    obtain ⟨j', hj', rfl⟩ := mem_inspected.1 hmem
    rw [heq]
    exact hi.all j' hj'

/-- The position returned holds the oldest inspected entry exactly if the oldest one was drawn from its own place,
or from a place that a later iteration fills with an entry just as old. -/
theorem selectTried_holdsOldest_iff (mapInfo : Map Nat CAddrInfo) (rand : Nat → Nat) {vTried : List Nat}
    (hnodup : vTried.Nodup) :
    (∀ nPos, (selectTried mapInfo rand vTried).2 = some nPos → HoldsOldest mapInfo rand vTried nPos) ↔
      ∀ i, FirstOldest mapInfo rand vTried (inspectedSize vTried) i →
        drawn rand vTried.length i = i ∨ drawn rand vTried.length i < inspectedSize vTried ∧
          lastSuccess mapInfo (drawnEntry mapInfo rand vTried (drawn rand vTried.length i)) =
            lastSuccess mapInfo (drawnEntry mapInfo rand vTried i) := by
  have hiff : ∀ i, FirstOldest mapInfo rand vTried (inspectedSize vTried) i →
      (HoldsOldest mapInfo rand vTried (drawn rand vTried.length i) ↔
        drawn rand vTried.length i = i ∨ drawn rand vTried.length i < inspectedSize vTried ∧
          lastSuccess mapInfo (drawnEntry mapInfo rand vTried (drawn rand vTried.length i)) =
            lastSuccess mapInfo (drawnEntry mapInfo rand vTried i)) := by
    intro i hi
    rw [holdsOldest_iff hnodup hi (drawn_lt (lt_of_lt_of_le hi.lt (Nat.min_le_right ..)))]
    refine ⟨.inr, ?_⟩
    rintro (heq | h)
    · rw [heq]
      exact ⟨hi.lt, rfl⟩
    · exact h
  rcases oldest_searchTried mapInfo rand vTried (inspectedSize vTried) with
    ⟨hzero, -, hpos⟩ | ⟨i, hi, -, hpos⟩
  · refine ⟨fun _ i hi => ?_, fun _ nPos h => ?_⟩
    · rw [hzero] at hi
      exact absurd hi.lt (Nat.not_lt_zero _)
    · exact absurd (hpos.symm.trans h) (by simp)
  · constructor
    · intro h i' hi'
      obtain rfl := hi.unique hi'
      exact (hiff i hi).1 (h _ hpos)
    · intro h nPos hnPos
      obtain rfl := Option.some.inj (hpos.symm.trans hnPos)
      exact (hiff i hi).2 (h i hi)

/-- A full bucket whose entries succeeded one after the other, the last one first. -/
def agingInfo : Map Nat CAddrInfo :=
  Std.ExtTreeMap.ofList ((List.range 64).map fun n => (n, ⟨100 - n⟩)) compare

/-- Every draw at its own place: the fourth entry is the oldest of the first four. -/
theorem selectTried_holdsOldest_firstFour : (List.range 64).Nodup ∧
    ∀ nPos, (selectTried agingInfo (fun _ => 0) (List.range 64)).2 = some nPos →
      HoldsOldest agingInfo (fun _ => 0) (List.range 64) nPos :=
  ⟨List.nodup_range, (selectTried_holdsOldest_iff agingInfo (fun _ => 0) List.nodup_range).2 fun i _ =>
    .inl (by rw [drawn, Nat.zero_mod, Nat.zero_add])⟩

/-- Entry 63 is drawn first and is the oldest; the position returned then holds entry 0, the newest of the bucket. -/
theorem selectTried_newest : (selectTried agingInfo (fun _ => 63) (List.range 64)).2 = some 63 ∧
      (selectTried agingInfo (fun _ => 63) (List.range 64)).1[63]? = some 0 ∧
      inspected agingInfo (fun _ => 63) (List.range 64) = [63, 1, 3, 5] ∧
      ¬ HoldsOldest agingInfo (fun _ => 63) (List.range 64) 63 := by
  have hrun : (selectTried agingInfo (fun _ => 63) (List.range 64)).2 = some 63 ∧
      (selectTried agingInfo (fun _ => 63) (List.range 64)).1[63]? = some 0 ∧
      inspected agingInfo (fun _ => 63) (List.range 64) = [63, 1, 3, 5] := by
    decide +kernel
  obtain ⟨hpos, hget, hinspected⟩ := hrun
  refine ⟨hpos, hget, hinspected, ?_⟩
  rintro ⟨nId, hmem, hnId, -⟩
  obtain rfl := Option.some.inj (hget.symm.trans hnId)
  rw [hinspected] at hmem
  exact absurd hmem (by decide)

end Stealth

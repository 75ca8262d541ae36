import Stealth.Lib.Tally
import Stealth.Qpos.Advance

/-!
Docking of inactive keys and purging of low balances, key by key, and when doing it twice is doing it once.
-/

namespace Stealth.QPRegistry

variable {r : QPRegistry} {key : CPubKey} {nMoneySupply : Int}

def dockValue (nMoneySupply : Int) : Int := nMoneySupply.tdiv DOCK_INACTIVE_FRACTION

theorem dockKey_getElem? (d : Int) (m : Map CPubKey Int) (e : CPubKey × Int) (key : CPubKey) :
    (dockKey d m e)[key]? = if e.1 = key ∧ e.2 < 1 then m[key]?.map (· - d) else m[key]? := by
  unfold dockKey
  by_cases hlow : e.2 < 1
  · by_cases hkey : e.1 = key
    · subst hkey
      cases h : m[e.1]? with
      | none => simp [hlow, h]
      | some n => simp [hlow]
    · cases h : m[e.1]? with
      | none => simp [hkey]
      | some n => simp [hlow, hkey, getElem?_insert]
  · simp [hlow]

theorem foldl_dockKey_getElem? (d : Int) (key : CPubKey) :
    ∀ (l : List (CPubKey × Int)) (m : Map CPubKey Int), (l.map Prod.fst).Nodup →
      (l.foldl (dockKey d) m)[key]? =
        if ∃ e ∈ l, e.1 = key ∧ e.2 < 1 then m[key]?.map (· - d) else m[key]?
  | [], m, _ => by simp
  | e :: rest, m, hnd => by
    rw [List.map_cons, List.nodup_cons] at hnd
    rw [List.foldl_cons, foldl_dockKey_getElem? d key rest _ hnd.2, dockKey_getElem?]
    by_cases hkey : e.1 = key
    · -- the key stands first, so it is not in the rest
      have hrest : ¬ ∃ e' ∈ rest, e'.1 = key ∧ e'.2 < 1 := by
        rintro ⟨e', he', hk, -⟩
        exact hnd.1 (hkey.trans hk.symm ▸ List.mem_map_of_mem he')
      simp only [List.mem_cons, exists_eq_or_imp, hrest, or_false, if_false, hkey, true_and]
    · simp only [List.mem_cons, exists_eq_or_imp, hkey, false_and, false_or, if_false]

def IsInactive (r : QPRegistry) (key : CPubKey) : Prop := ∃ n, r.mapActive[key]? = some n ∧ n < 1

instance (r : QPRegistry) (key : CPubKey) : Decidable (r.IsInactive key) :=
  match h : r.mapActive[key]? with
  | none => .isFalse fun ⟨_, hn, _⟩ => by rw [h] at hn; cases hn
  | some n =>
    if hlow : n < 1 then .isTrue ⟨n, h, hlow⟩
    else .isFalse fun ⟨_, hn, hlow'⟩ => by rw [h] at hn; cases hn; exact hlow hlow'

theorem dockInactiveKeys_getElem? (r : QPRegistry) (nMoneySupply : Int) (key : CPubKey) :
    (r.dockInactiveKeys nMoneySupply).mapBalances[key]? =
      if r.IsInactive key then r.mapBalances[key]?.map (· - dockValue nMoneySupply)
      else r.mapBalances[key]? := by
  have hiff : (∃ e ∈ r.mapActive.toList, e.1 = key ∧ e.2 < 1) ↔ r.IsInactive key := by
    simp only [IsInactive, Prod.exists, mem_toList_iff_getElem?_eq_some]
    exact ⟨fun ⟨_, n, hn, rfl, hlow⟩ => ⟨n, hn, hlow⟩, fun ⟨n, hn, hlow⟩ => ⟨key, n, hn, rfl, hlow⟩⟩
  simp only [dockInactiveKeys, foldl_dockKey_getElem? _ key _ _ (Tally.nodup_keys_toList _), hiff,
    dockValue]

theorem mem_lowBalanceKeys {d : Int} : key ∈ r.lowBalanceKeys d ↔
      ∃ n, r.mapBalances[key]? = some n ∧ n < d ∧ r.mapActive.getD key 0 ≤ 0 := by
  simp only [lowBalanceKeys, List.mem_map, List.mem_filter, Bool.and_eq_true, decide_eq_true_eq,
    Prod.exists, exists_and_right, exists_eq_right,
    mem_toList_iff_getElem?_eq_some]

def purgedKeys (r : QPRegistry) (nMoneySupply : Int) : List CPubKey :=
  (r.dockInactiveKeys nMoneySupply).lowBalanceKeys (dockValue nMoneySupply)

theorem mem_purgedKeys : key ∈ r.purgedKeys nMoneySupply ↔
      ∃ b, (r.dockInactiveKeys nMoneySupply).mapBalances[key]? = some b ∧
        b < dockValue nMoneySupply ∧ r.mapActive.getD key 0 ≤ 0 :=
  mem_lowBalanceKeys

theorem endRound_mapBalances (r : QPRegistry) (nMoneySupply : Int) (key : CPubKey) :
    (r.endRound nMoneySupply).mapBalances[key]? =
      if key ∈ r.purgedKeys nMoneySupply then none
      else (r.dockInactiveKeys nMoneySupply).mapBalances[key]? :=
  Tally.getElem?_foldl_erase key _ _

theorem endRound_mapActive (r : QPRegistry) (nMoneySupply : Int) (key : CPubKey) :
    (r.endRound nMoneySupply).mapActive[key]? =
      if key ∈ r.purgedKeys nMoneySupply then none else r.mapActive[key]? :=
  Tally.getElem?_foldl_erase key _ _

theorem endRound_eq (r : QPRegistry) (nMoneySupply : Int) : r.endRound nMoneySupply =
      { r with
        mapBalances := (r.endRound nMoneySupply).mapBalances
        mapActive := (r.endRound nMoneySupply).mapActive } := rfl

/-- Every inactive key with a balance is purged when it is docked, or nothing is docked. -/
def DockStable (r : QPRegistry) (nMoneySupply : Int) : Prop :=
  dockValue nMoneySupply = 0 ∨
    ∀ key b, r.IsInactive key → r.mapBalances[key]? = some b →
      b - dockValue nMoneySupply < dockValue nMoneySupply

theorem IsInactive.getD_le (h : r.IsInactive key) : r.mapActive.getD key 0 ≤ 0 := by
  obtain ⟨n, hn, hlow⟩ := h
  rw [getD_eq_getD_getElem?, hn]
  exact Int.lt_add_one_iff.1 hlow

/-- A key that survives the end of a queue with a balance is not inactive, or nothing is docked. -/
theorem DockStable.not_docked (h : r.DockStable nMoneySupply) (key : CPubKey) :
    ((r.endRound nMoneySupply).dockInactiveKeys nMoneySupply).mapBalances[key]? =
      (r.endRound nMoneySupply).mapBalances[key]? := by
  rw [dockInactiveKeys_getElem?]
  split
  · next hin =>
    rcases h with hzero | hlow
    · cases (r.endRound nMoneySupply).mapBalances[key]? <;> simp [hzero]
    · -- an inactive key is purged if it has a balance, so it has none left
      obtain ⟨n, hn, hn1⟩ := hin
      rw [endRound_mapActive] at hn
      split at hn
      · cases hn
      · next hkeep =>
        have hin : r.IsInactive key := ⟨n, hn, hn1⟩
        rw [endRound_mapBalances, if_neg hkeep, dockInactiveKeys_getElem?, if_pos hin]
        cases hb : r.mapBalances[key]? with
        | none => rfl
        | some b =>
          refine absurd (mem_purgedKeys.2 ⟨b - dockValue nMoneySupply, ?_, hlow key b hin hb,
            hin.getD_le⟩) hkeep
          rw [dockInactiveKeys_getElem?, if_pos hin, hb]
          rfl
  · rfl

theorem not_mem_purgedKeys_endRound (h : r.DockStable nMoneySupply) (key : CPubKey) :
    key ∉ (r.endRound nMoneySupply).purgedKeys nMoneySupply := by
  intro hmem
  obtain ⟨n, hn, hlow, hact⟩ := mem_purgedKeys.1 hmem
  rw [h.not_docked, endRound_mapBalances] at hn
  split at hn
  · cases hn
  · next hkeep =>
    refine hkeep (mem_purgedKeys.2 ⟨n, hn, hlow, ?_⟩)
    rw [getD_eq_getD_getElem?, endRound_mapActive, if_neg hkeep] at hact
    rw [getD_eq_getD_getElem?]
    exact hact

/-- The end of a queue can be repeated without effect exactly when docking is stable. -/
theorem endRound_endRound_iff (r : QPRegistry) (nMoneySupply : Int) :
    (r.endRound nMoneySupply).endRound nMoneySupply = r.endRound nMoneySupply ↔
      r.DockStable nMoneySupply := by
  constructor
  · intro heq
    by_contra hns
    simp only [DockStable, not_or, not_forall, Int.not_lt] at hns
    obtain ⟨hd, key, b, hin, hb, hle⟩ := hns
    obtain ⟨n, hn, hn1⟩ := hin
    have hin : r.IsInactive key := ⟨n, hn, hn1⟩
    have hdock : (r.dockInactiveKeys nMoneySupply).mapBalances[key]? =
        some (b - dockValue nMoneySupply) := by
      rw [dockInactiveKeys_getElem?, if_pos hin, hb]
      rfl
    have hkeep : key ∉ r.purgedKeys nMoneySupply := fun hmem => by
      obtain ⟨b', hb', hlow, -⟩ := mem_purgedKeys.1 hmem
      rw [hdock] at hb'
      cases hb'
      omega
    have hbal : (r.endRound nMoneySupply).mapBalances[key]? = some (b - dockValue nMoneySupply) := by
      rw [endRound_mapBalances, if_neg hkeep, hdock]
    have hin' : (r.endRound nMoneySupply).IsInactive key :=
      ⟨n, by rw [endRound_mapActive, if_neg hkeep]; exact hn, hn1⟩
    have htwice := congrArg (fun r : QPRegistry => r.mapBalances[key]?) heq
    rw [endRound_mapBalances, dockInactiveKeys_getElem?, if_pos hin', hbal] at htwice
    split at htwice
    · cases htwice
    · simp only [Option.map_some, Option.some.injEq] at htwice
      omega
  · intro h
    rw [endRound_eq (r.endRound nMoneySupply)]
    have hbal : ((r.endRound nMoneySupply).endRound nMoneySupply).mapBalances =
        (r.endRound nMoneySupply).mapBalances :=
      ext_getElem? fun key => by
        rw [endRound_mapBalances, if_neg (not_mem_purgedKeys_endRound h key), h.not_docked]
    have hact : ((r.endRound nMoneySupply).endRound nMoneySupply).mapActive =
        (r.endRound nMoneySupply).mapActive :=
      ext_getElem? fun key => by
        rw [endRound_mapActive, if_neg (not_mem_purgedKeys_endRound h key)]
    rw [hbal, hact]

end Stealth.QPRegistry

import Stealth.Qpos.Accounts

/-!
Every operation changes the total of the accounts by its flow, no balance falls below zero, and claims of a
key keep their distance.
-/

namespace Stealth.Accounts

open Tally

variable {K : Type} [Ord K] [Std.TransOrd K] {a : Accounts K} {op : AccountOp K} {ops : List (AccountOp K)}
  {nTime t : Int} {k : K}

theorem total_dock (nDockValue : Int) :
    (a.dock nDockValue).total + sumOver (fun key _ => if a.isInactive key then nDockValue else 0)
      a.balances = a.total := by
  rw [total, dock, sumOver_map, ← sumOver_add, total]
  congr 1
  funext key n
  split
  · exact Int.sub_add_cancel n nDockValue
  · exact Int.add_zero n

theorem total_purge (nDockValue : Int) :
    (a.purge nDockValue).total + sumOver (fun key n => if a.isLow nDockValue key then n else 0)
      a.balances = a.total := by
  rw [total, purge, sumOver_filter, ← sumOver_add, total]
  congr 1
  funext key n
  cases a.isLow nDockValue key with
  | false => simp
  | true => simp

def Solvent (a : Accounts K) : Prop := ∀ (k : K) (n : Int), a.balances[k]? = some n → 0 ≤ n

theorem Solvent.balance (h : Solvent a) (key : K) : 0 ≤ a.balance key := by
  rw [Accounts.balance, getD_eq_getD_getElem?]
  cases hk : a.balances[key]? with
  | none => exact Int.le_refl 0
  | some n => exact h key n hk

theorem Solvent.setBalance (h : Solvent a) (key : K) {n : Int} (hn : 0 ≤ n) :
    Solvent { a with balances := a.balances.insert key n } := by
  intro k m hm
  simp only [getElem?_insert] at hm
  split at hm
  · cases hm
    exact hn
  · exact h k m hm

theorem Solvent.activate (h : Solvent a) (key : K) (nTime : Int) : Solvent (a.activate key nTime) := by
  rw [Accounts.activate]
  split
  · exact h.setBalance key (Int.le_refl 0)
  · exact h

theorem Solvent.credit (h : Solvent a) (key : K) {n : Int} (hn : 0 ≤ n) : Solvent (a.credit key n) :=
  h.setBalance key (Int.add_nonneg (h.balance key) hn)

section

variable [DecidableEq K]

def credited : AccountOp K → Int
  | .reward _ nManager nDelegate => nManager + max nDelegate 0
  | _ => 0

def claimed : AccountOp K → Int
  | .claim _ nValue _ => nValue
  | _ => 0

theorem flow_rewards (hop : a.Allowed op) : (a.flow op).rewards = credited op := by
  cases op with
  | reward nID nManager nDelegate =>
    obtain ⟨keys, hkeys⟩ := Tally.exists_getElem? hop
    simp only [flow, hkeys, credited]
  | setManager nID key nTime | setDelegate nID key nTime =>
    rw [flow]
    split <;> rfl
  | _ => rfl

theorem flow_claims (op : AccountOp K) : (a.flow op).claims = claimed op := by
  cases op with
  | claim key nValue nTime => rfl
  | register nID manager delegate nTime => rfl
  | endRound nDockValue => rfl
  | _ =>
    rw [flow]
    split <;> rfl

theorem allAllowed_append {ops' : List (AccountOp K)} :
    a.AllAllowed (ops ++ ops') ↔ a.AllAllowed ops ∧ (a.run ops).AllAllowed ops' := by
  induction ops generalizing a with
  | nil => simp [AllAllowed, Accounts.run]
  | cons op ops ih =>
    have hrest := ih (a := a.apply op)
    rw [List.cons_append, AllAllowed, AllAllowed, hrest, and_assoc]
    rfl

theorem flows_rewards_claims (hops : a.AllAllowed ops) :
    (a.flows ops).rewards = (ops.map credited).sum ∧ (a.flows ops).claims = (ops.map claimed).sum := by
  induction ops generalizing a with
  | nil => exact ⟨rfl, rfl⟩
  | cons op ops ih =>
    obtain ⟨hrewards, hclaims⟩ := ih hops.2
    rw [flows, List.map_cons, List.sum_cons, List.map_cons, List.sum_cons, ← hrewards, ← hclaims,
      ← flow_rewards hops.1, ← flow_claims (a := a)]
    exact ⟨rfl, rfl⟩

theorem Solvent.move (h : Solvent a) (old new : K) (nTime : Int) : Solvent (a.move old new nTime) := by
  rw [Accounts.move]
  split
  · exact h
  · exact Solvent.activate (a := a.deactivate old) h new nTime

end

variable [Std.LawfulEqOrd K]

theorem sumOver_set (m : Map K Int) (key : K) (n : Int) :
    sumOver (fun _ n => n) (m.insert key n) = sumOver (fun _ n => n) m - m.getD key 0 + n := by
  rw [sumOver_insert, getD_eq_getD_getElem?]
  cases h : m[key]? with
  | none =>
    rw [sumOver_erase_of_none _ h, Option.getD_none]
    omega
  | some v =>
    rw [sumOver_of_getElem? _ h, Option.getD_some]
    omega

theorem total_activate (key : K) (nTime : Int) : (a.activate key nTime).total = a.total - a.resetOf key := by
  rw [resetOf, total, activate]
  split
  · rw [sumOver_set, balance, total, Int.add_zero]
  · rw [total, Int.sub_zero]

theorem total_credit (key : K) (n : Int) : (a.credit key n).total = a.total + n := by
  rw [total, credit, sumOver_set, balance, total]
  omega

theorem Solvent.endRound (h : Solvent a) {nDockValue : Int} (hd : 0 ≤ nDockValue) :
    Solvent ((a.dock nDockValue).purge nDockValue) := by
  intro k n hn
  simp only [purge, Std.ExtTreeMap.getElem?_filter', Option.filter_eq_some_iff, Bool.not_eq_true',
    isLow, Bool.and_eq_false_iff, decide_eq_false_iff_not] at hn
  obtain ⟨hdocked, hlow⟩ := hn
  have hbalance := hdocked
  simp only [dock, getElem?_map, Option.map_eq_some_iff] at hbalance
  obtain ⟨m, hm, hmn⟩ := hbalance
  cases hin : a.isInactive k with
  | false =>
    rw [hin, if_neg Bool.false_ne_true] at hmn
    exact hmn ▸ h k m hm
  | true =>
    -- an inactive key stays only if its balance is not below the dock value
    rcases hlow with hlow | hcount
    · rw [hdocked, Option.any_some, decide_eq_false_iff_not] at hlow
      omega
    · refine absurd ?_ hcount
      rw [isInactive] at hin
      change a.active.getD k 0 ≤ 0
      rw [getD_eq_getD_getElem?]
      cases hk : a.active[k]? with
      | none => exact Int.le_refl 0
      | some c =>
        rw [hk, Option.any_some, decide_eq_true_eq] at hin
        exact Int.lt_add_one_iff.1 hin

variable [DecidableEq K]

theorem total_move (old new : K) (nTime : Int) :
    (a.move old new nTime).total = a.total - a.resetOfMove old new := by
  rw [move, resetOfMove]
  split
  · rw [Int.sub_zero]
  · exact total_activate new nTime

theorem total_apply (op : AccountOp K) : (a.apply op).total = a.total + (a.flow op).net := by
  cases op with
  | register nID manager delegate nTime =>
    rw [apply, total_activate, total_activate, flow]
    change a.total - _ - _ = _
    dsimp only [Totals.net]
    omega
  | setManager nID key nTime =>
    cases h : a.roles[nID]? with
    | none => simp [apply, flow, h, Totals.net]
    | some keys =>
      have hmove := total_move (a := a) keys.1 key nTime
      simp only [apply, flow, h, Totals.net]
      change (a.move keys.1 key nTime).total = _
      omega
  | setDelegate nID key nTime =>
    cases h : a.roles[nID]? with
    | none => simp [apply, flow, h, Totals.net]
    | some keys =>
      have hmove := total_move (a := a) keys.2 key nTime
      simp only [apply, flow, h, Totals.net]
      change (a.move keys.2 key nTime).total = _
      omega
  | claim key nValue nTime =>
    change sumOver (fun _ n => n) (a.balances.insert key (a.balance key - nValue)) = _
    rw [sumOver_set, balance, total]
    dsimp only [flow, Totals.net]
    omega
  | reward nID nManager nDelegate =>
    cases h : a.roles[nID]? with
    | none => simp [apply, flow, h, Totals.net]
    | some keys =>
      simp only [apply, flow, h, Totals.net]
      split
      · rw [total_credit, total_credit]
        omega
      · rw [total_credit]
        omega
  | endRound nDockValue =>
    have hdock := total_dock (a := a) nDockValue
    have hpurge := total_purge (a := a.dock nDockValue) nDockValue
    dsimp only [apply, flow, Totals.net]
    omega

/-- Over every run, the total grows by rewards and shrinks by claims, docking, purging and resets. -/
theorem total_run (ops : List (AccountOp K)) : (a.run ops).total = a.total + (a.flows ops).net := by
  induction ops generalizing a with
  | nil => simp [run, flows, Totals.net]
  | cons op ops ih =>
    have hrest := ih (a := a.apply op)
    rw [flows, Totals.net_add]
    change ((a.apply op).run ops).total = _
    rw [hrest, total_apply]
    omega

def Fair : AccountOp K → Prop
  | .reward _ nManager _ => 0 ≤ nManager
  | .endRound nDockValue => 0 ≤ nDockValue
  | _ => True

theorem Solvent.apply (h : Solvent a) (hop : a.Allowed op) (hfair : Fair op) : Solvent (a.apply op) := by
  cases op with
  | register nID manager delegate nTime =>
    exact Solvent.activate (Solvent.activate (a := a.setRole nID _) h manager nTime) delegate nTime
  | setManager nID key nTime | setDelegate nID key nTime =>
    rw [Accounts.apply]
    split
    · exact h
    · exact h.move _ key nTime
  | claim key nValue nTime =>
    obtain ⟨⟨n, hn, hle⟩, -⟩ := hop
    have hbalance : a.balance key = n := by
      rw [Accounts.balance, getD_eq_getD_getElem?, hn, Option.getD_some]
    exact h.setBalance key (by rw [hbalance]; omega)
  | reward nID nManager nDelegate =>
    rw [Accounts.apply]
    split
    · exact h
    · dsimp only
      split
      · next hpos => exact (h.credit _ hfair).credit _ (Int.le_of_lt hpos)
      · exact h.credit _ hfair
  | endRound nDockValue => exact h.endRound hfair

theorem Solvent.run (h : Solvent a) (hops : a.AllAllowed ops)
    (hfair : ∀ op ∈ ops, Fair op) : Solvent (a.run ops) := by
  induction ops generalizing a with
  | nil => exact h
  | cons op ops ih =>
    obtain ⟨hhead, htail⟩ := List.forall_mem_cons.1 hfair
    exact ih (h.apply hops.1 hhead) hops.2 htail

def timeOf : AccountOp K → Option Int
  | .register _ _ _ nTime | .setManager _ _ nTime | .setDelegate _ _ nTime | .claim _ _ nTime =>
    some nTime
  | .reward .. | .endRound _ => none

def Activates (a : Accounts K) (op : AccountOp K) (key : K) (nTime : Int) : Prop :=
  a.activeCount key = 0 ∧ 0 < (a.apply op).activeCount key ∧ timeOf op = some nTime

def Since (a : Accounts K) (key : K) (nTime : Int) : Prop :=
  ∃ n, a.lastClaim[key]? = some n ∧ nTime ≤ n

theorem lastClaim_activate (key : K) (nTime : Int) (k : K) : (a.activate key nTime).lastClaim[k]? =
      if a.activeCount key = 0 ∧ key = k then some nTime else a.lastClaim[k]? := by
  rw [activate]
  by_cases hzero : a.activeCount key = 0
  · simp only [hzero, if_true, true_and, getElem?_insert,
      Std.LawfulEqCmp.compare_eq_iff_eq]
  · simp only [hzero, if_false, false_and]

theorem since_activate {key : K} (hzero : a.activeCount key = 0) : (a.activate key nTime).Since key nTime :=
  ⟨nTime, by rw [lastClaim_activate, if_pos ⟨hzero, rfl⟩], Int.le_refl _⟩

theorem Since.activate (h : a.Since k t) (ht : t ≤ nTime) (key : K) : (a.activate key nTime).Since k t := by
  obtain ⟨n, hn, hle⟩ := h
  rw [Since, lastClaim_activate]
  split
  · exact ⟨nTime, rfl, ht⟩
  · exact ⟨n, hn, hle⟩

theorem Since.move (h : a.Since k t) (ht : t ≤ nTime) (old new : K) : (a.move old new nTime).Since k t := by
  rw [Accounts.move]
  split
  · exact h
  · exact Since.activate (a := a.deactivate old) h ht new

theorem since_move {old new : K} (hzero : a.activeCount new = 0) (hne : new ≠ old) :
    (a.move old new nTime).Since new nTime := by
  rw [Accounts.move, if_neg hne]
  refine since_activate ?_
  rw [activeCount_deactivate, if_neg (Ne.symm hne), hzero, Int.sub_zero]

theorem since_of_move_pos {old new : K} (hzero : a.activeCount k = 0)
    (hpos : 0 < (a.move old new nTime).activeCount k) : (a.move old new nTime).Since k nTime := by
  rw [activeCount_move, hzero] at hpos
  have hkey : new = k ∧ old ≠ k := by
    split at hpos <;> split at hpos <;> first | omega | exact ⟨‹_›, ‹_›⟩
  obtain ⟨rfl, hne⟩ := hkey
  exact since_move hzero (Ne.symm hne)

theorem Since.apply (h : a.Since k t)
    (ht : ∀ nTime, timeOf op = some nTime → t ≤ nTime) : (a.apply op).Since k t := by
  cases op with
  | register nID manager delegate nTime =>
    have hle := ht nTime rfl
    exact Since.activate (Since.activate (a := a.setRole nID _) h hle manager) hle delegate
  | setManager nID key nTime | setDelegate nID key nTime =>
    rw [Accounts.apply]
    split
    · exact h
    · exact h.move (ht nTime rfl) _ key
  | claim key nValue nTime =>
    obtain ⟨n, hn, hle⟩ := h
    simp only [Since, Accounts.apply, getElem?_insert,
      Std.LawfulEqCmp.compare_eq_iff_eq]
    split
    · exact ⟨nTime, rfl, ht nTime rfl⟩
    · exact ⟨n, hn, hle⟩
  | reward nID nManager nDelegate =>
    rw [Accounts.apply]
    split
    · exact h
    · dsimp only
      split <;> exact h
  | endRound nDockValue => exact h

theorem Since.run (h : a.Since k t)
    (ht : ∀ op ∈ ops, ∀ nTime, timeOf op = some nTime → t ≤ nTime) : (a.run ops).Since k t := by
  induction ops generalizing a with
  | nil => exact h
  | cons op ops ih =>
    obtain ⟨hhead, htail⟩ := List.forall_mem_cons.1 ht
    exact ih (h.apply hhead) htail

theorem Activates.since (h : a.Activates op k t) : (a.apply op).Since k t := by
  obtain ⟨hzero, hpos, htime⟩ := h
  cases op with
  | register nID manager delegate nTime =>
    cases htime
    rw [Accounts.apply, activeCount_activate, activeCount_activate, activeCount_setRole, hzero] at hpos
    rw [Accounts.apply]
    by_cases hm : manager = k
    · subst hm
      exact (since_activate (a := a.setRole nID _) hzero).activate (Int.le_refl _) delegate
    · rw [if_neg hm] at hpos
      obtain rfl : delegate = k := by
        by_contra hd
        rw [if_neg hd] at hpos
        omega
      refine since_activate ?_
      rw [activeCount_activate, if_neg hm, activeCount_setRole, hzero, Int.add_zero]
  | setManager nID key nTime | setDelegate nID key nTime =>
    cases htime
    rw [Accounts.apply] at hpos ⊢
    split at hpos
    · omega
    · exact since_of_move_pos hzero hpos
  | claim key nValue nTime => exact absurd hpos (by change ¬ 0 < a.activeCount k; omega)
  | reward nID nManager nDelegate => cases htime
  | endRound nDockValue => cases htime

/-- A claim is made a day or more after every earlier claim and activation of its key. -/
theorem claim_spaced {pre mid post : List (AccountOp K)} {key : K} {t₁ t₂ nValue : Int}
    (hall : a.AllAllowed (pre ++ op :: (mid ++ .claim key nValue t₂ :: post)))
    (hop : (∃ n, op = .claim key n t₁) ∨ (a.run pre).Activates op key t₁)
    (hmid : ∀ o ∈ mid, ∀ nTime, timeOf o = some nTime → t₁ ≤ nTime) (hpos : 0 < t₂) :
    t₁ + QP_MIN_SECS_PER_CLAIM ≤ t₂ := by
  obtain ⟨-, hstep, hrest⟩ := allAllowed_append.1 hall
  obtain ⟨-, hclaim, -⟩ := allAllowed_append.1 hrest
  have hsince : ((a.run pre).apply op).Since key t₁ := by
    rcases hop with ⟨n, rfl⟩ | hact
    · exact ⟨t₁, getElem?_insert_self, Int.le_refl _⟩
    · exact hact.since
  obtain ⟨n, hn, hle⟩ := hsince.run hmid
  have hwait := hclaim.2 hpos n hn
  omega

end Stealth.Accounts

import Mathlib.Algebra.Order.BigOperators.Group.List
import Stealth.ChainParams
import Stealth.Lib.Tally

/-!
Reward accounts. A key is counted for every staker and role that names it; one that nobody names is docked
at the end of every round.
-/

namespace Stealth

open Tally

@[ext] structure Accounts (K : Type) [Ord K] where
  /-- The manager key and the delegate key of every staker. -/
  roles : Map Nat (K × K)
  balances : Map K Int
  lastClaim : Map K Int
  active : Map K Int

inductive AccountOp (K : Type) where
  | register (nID : Nat) (manager delegate : K) (nTime : Int)
  | setManager (nID : Nat) (key : K) (nTime : Int)
  | setDelegate (nID : Nat) (key : K) (nTime : Int)
  | claim (key : K) (nValue nTime : Int)
  | reward (nID : Nat) (nManager nDelegate : Int)
  | endRound (nDockValue : Int)
  deriving DecidableEq

/-- What has gone into the accounts and what has left them. -/
@[ext] structure Totals where
  rewards : Int := 0
  claims : Int := 0
  docked : Int := 0
  purged : Int := 0
  reset : Int := 0

namespace Totals

def add (s t : Totals) : Totals :=
  ⟨s.rewards + t.rewards, s.claims + t.claims, s.docked + t.docked, s.purged + t.purged,
    s.reset + t.reset⟩

def net (t : Totals) : Int := t.rewards - t.claims - t.docked - t.purged - t.reset

theorem net_add (s t : Totals) : (s.add t).net = s.net + t.net := by
  simp only [net, add]
  omega

end Totals

namespace Accounts

section Operations

variable {K : Type} [Ord K] [Std.TransOrd K] [DecidableEq K] (a : Accounts K)

def activeCount (key : K) : Int := a.active.getD key 0

def balance (key : K) : Int := a.balances.getD key 0

/-- A key that nobody names starts afresh: with no balance, and a day from its next claim. -/
def activate (key : K) (nTime : Int) : Accounts K :=
  { a with
    balances := if a.activeCount key = 0 then a.balances.insert key 0 else a.balances
    lastClaim := if a.activeCount key = 0 then a.lastClaim.insert key nTime else a.lastClaim
    active := a.active.insert key (a.activeCount key + 1) }

def deactivate (key : K) : Accounts K :=
  { a with active := a.active.insert key (a.activeCount key - 1) }

def move (old new : K) (nTime : Int) : Accounts K :=
  if new = old then a else (a.deactivate old).activate new nTime

def credit (key : K) (n : Int) : Accounts K :=
  { a with balances := a.balances.insert key (a.balance key + n) }

def setRole (nID : Nat) (keys : K × K) : Accounts K :=
  { a with roles := a.roles.insert nID keys }

def isInactive (key : K) : Bool := (a.active[key]?).any (· < 1)

def dock (nDockValue : Int) : Accounts K :=
  { a with
    balances := a.balances.map fun key n => if a.isInactive key then n - nDockValue else n }

def isLow (nDockValue : Int) (key : K) : Bool :=
  (a.balances[key]?).any (· < nDockValue) && decide (a.activeCount key ≤ 0)

def purge (nDockValue : Int) : Accounts K :=
  { a with
    balances := a.balances.filter fun key _ => !a.isLow nDockValue key
    active := a.active.filter fun key _ => !a.isLow nDockValue key }

def apply : AccountOp K → Accounts K
  | .register nID manager delegate nTime =>
    ((a.setRole nID (manager, delegate)).activate manager nTime).activate delegate nTime
  | .setManager nID key nTime =>
    match a.roles[nID]? with
    | none => a
    | some (manager, delegate) => (a.move manager key nTime).setRole nID (key, delegate)
  | .setDelegate nID key nTime =>
    match a.roles[nID]? with
    | none => a
    | some (manager, delegate) => (a.move delegate key nTime).setRole nID (manager, key)
  | .claim key nValue nTime =>
    { a with
      balances := a.balances.insert key (a.balance key - nValue)
      lastClaim := a.lastClaim.insert key nTime }
  | .reward nID nManager nDelegate =>
    match a.roles[nID]? with
    | none => a
    | some (manager, delegate) =>
      let a := a.credit manager nManager
      if nDelegate > 0 then a.credit delegate nDelegate else a
  | .endRound nDockValue => (a.dock nDockValue).purge nDockValue

/-- When an operation applies: new stakers are new, others are known, and a claim is covered and not
too soon. A claim time that is not positive does not say when the claim is made. -/
def Allowed : AccountOp K → Prop
  | .register nID _ _ _ => nID ∉ a.roles
  | .setManager nID _ _ | .setDelegate nID _ _ | .reward nID _ _ => nID ∈ a.roles
  | .claim key nValue nTime =>
    (∃ n, a.balances[key]? = some n ∧ nValue ≤ n) ∧
      (0 < nTime → ∀ n, a.lastClaim[key]? = some n → n + QP_MIN_SECS_PER_CLAIM ≤ nTime)
  | .endRound _ => True

def resetOf (key : K) : Int := if a.activeCount key = 0 then a.balance key else 0

def resetOfMove (old new : K) : Int :=
  if new = old then 0 else (a.deactivate old).resetOf new

def flow : AccountOp K → Totals
  | .register nID manager delegate nTime =>
    let a := a.setRole nID (manager, delegate)
    { reset := a.resetOf manager + (a.activate manager nTime).resetOf delegate }
  | .setManager nID key _ =>
    match a.roles[nID]? with
    | none => {}
    | some (manager, _) => { reset := a.resetOfMove manager key }
  | .setDelegate nID key _ =>
    match a.roles[nID]? with
    | none => {}
    | some (_, delegate) => { reset := a.resetOfMove delegate key }
  | .claim _ nValue _ => { claims := nValue }
  | .reward nID nManager nDelegate =>
    match a.roles[nID]? with
    | none => {}
    | some _ => { rewards := nManager + max nDelegate 0 }
  | .endRound nDockValue =>
    { docked := sumOver (fun key _ => if a.isInactive key then nDockValue else 0) a.balances
      purged :=
        let a := a.dock nDockValue
        sumOver (fun key n => if a.isLow nDockValue key then n else 0) a.balances }

def AllAllowed (a : Accounts K) : List (AccountOp K) → Prop
  | [] => True
  | op :: ops => a.Allowed op ∧ (a.apply op).AllAllowed ops

def run (ops : List (AccountOp K)) : Accounts K := ops.foldl apply a

def flows (a : Accounts K) : List (AccountOp K) → Totals
  | [] => {}
  | op :: ops => (a.flow op).add ((a.apply op).flows ops)

def roleCount (key : K) : Int :=
  sumOver (fun _ keys => (if keys.1 = key then 1 else 0) + if keys.2 = key then 1 else 0) a.roles

def total : Int := sumOver (fun _ n => n) a.balances

end Operations

section Counts

variable {K : Type} [DecidableEq K]

def named (keys : K × K) (key : K) : Int :=
  (if keys.1 = key then 1 else 0) + if keys.2 = key then 1 else 0

theorem named_nonneg (keys : K × K) (key : K) : 0 ≤ named keys key := by
  unfold named
  split <;> split <;> decide

theorem named_manager_pos (manager delegate : K) : 0 < named (manager, delegate) manager := by
  unfold named
  rw [if_pos rfl]
  split <;> decide

theorem named_delegate_pos (manager delegate : K) : 0 < named (manager, delegate) delegate := by
  unfold named
  rw [if_pos rfl]
  split <;> decide

variable [Ord K] (a : Accounts K)

theorem roleCount_nonneg (key : K) : 0 ≤ a.roleCount key :=
  List.sum_nonneg fun n hn => by
    obtain ⟨e, -, rfl⟩ := List.mem_map.1 hn
    exact named_nonneg e.2 key

theorem roleCount_congr {b : Accounts K} (h : b.roles = a.roles) (key : K) :
    b.roleCount key = a.roleCount key := by rw [roleCount, roleCount, h]

theorem roleCount_setRole_new {nID : Nat} (h : nID ∉ a.roles) (keys : K × K) (key : K) :
    (a.setRole nID keys).roleCount key = a.roleCount key + named keys key := by
  have hnone : a.roles[nID]? = none := getElem?_eq_none h
  rw [roleCount, setRole, sumOver_insert, sumOver_erase_of_none _ hnone]
  exact Int.add_comm _ _

theorem roleCount_setRole {nID : Nat} {old : K × K} (h : a.roles[nID]? = some old) (keys : K × K) (key : K) :
    (a.setRole nID keys).roleCount key = a.roleCount key - named old key + named keys key := by
  rw [roleCount, setRole, sumOver_insert, roleCount, sumOver_of_getElem? _ h]
  unfold named
  omega

theorem named_le_roleCount {nID : Nat} {keys : K × K} (h : a.roles[nID]? = some keys) (key : K) :
    named keys key ≤ a.roleCount key := by
  have hrest := roleCount_nonneg { a with roles := a.roles.erase nID } key
  rw [roleCount, sumOver_of_getElem? _ h]
  exact Int.le_add_of_nonneg_right hrest

variable [Std.TransOrd K]

@[simp] theorem roles_move (old new : K) (nTime : Int) : (a.move old new nTime).roles = a.roles := by
  rw [move]
  split <;> rfl

variable [Std.LawfulEqOrd K]

theorem activeCount_activate (key : K) (nTime : Int) (k : K) :
    (a.activate key nTime).activeCount k = a.activeCount k + if key = k then 1 else 0 := by
  simp only [activeCount, activate, getD_insert, Std.LawfulEqCmp.compare_eq_iff_eq]
  split
  · next h => rw [h]
  · rw [Int.add_zero]

theorem activeCount_deactivate (key k : K) :
    (a.deactivate key).activeCount k = a.activeCount k - if key = k then 1 else 0 := by
  simp only [activeCount, deactivate, getD_insert, Std.LawfulEqCmp.compare_eq_iff_eq]
  split
  · next h => rw [h]
  · rw [Int.sub_zero]

theorem activeCount_move (old new : K) (nTime : Int) (k : K) : (a.move old new nTime).activeCount k =
      a.activeCount k - (if old = k then 1 else 0) + if new = k then 1 else 0 := by
  rw [move]
  split
  · next h => rw [h]; omega
  · rw [activeCount_activate, activeCount_deactivate]

end Counts

section Invariants

variable {K : Type} [Ord K] [Std.TransOrd K] {a : Accounts K}

@[simp] theorem activeCount_setRole (nID : Nat) (keys : K × K) (k : K) :
    (a.setRole nID keys).activeCount k = a.activeCount k := rfl

/-- The ledger has exactly the keys that are counted, and knows when each may claim. -/
structure Booked (a : Accounts K) : Prop where
  ledger : ∀ k, k ∈ a.active ↔ k ∈ a.balances
  clock : ∀ k, k ∈ a.balances → k ∈ a.lastClaim

theorem mem_active_of_ne_zero {k : K} (h : a.activeCount k ≠ 0) : k ∈ a.active := by
  by_contra hmem
  exact h (Std.ExtTreeMap.getD_eq_fallback hmem)

theorem Booked.setRole (h : Booked a) (nID : Nat) (keys : K × K) : Booked (a.setRole nID keys) :=
  ⟨h.ledger, h.clock⟩

theorem Booked.setLastClaim (h : Booked a) (key : K) (n : Int) :
    Booked { a with lastClaim := a.lastClaim.insert key n } :=
  ⟨h.ledger, fun k hk => mem_insert.2 (.inr (h.clock k hk))⟩

section

variable [DecidableEq K]

/-- The count of a key is the number of stakers and roles that name it. -/
def Counted (a : Accounts K) : Prop := ∀ k, a.activeCount k = a.roleCount k

theorem Counted.mem_active (hc : Counted a) {nID : Nat} {keys : K × K}
    (h : a.roles[nID]? = some keys) {k : K} (hk : 0 < named keys k) : k ∈ a.active := by
  have hle := named_le_roleCount a h k
  have hcount := hc k
  exact mem_active_of_ne_zero (by omega)

end

variable [Std.LawfulEqOrd K]

theorem Booked.activate (h : Booked a) (key : K) (nTime : Int) : Booked (a.activate key nTime) := by
  by_cases hzero : a.activeCount key = 0
  · constructor
    · intro k
      simp only [Accounts.activate, if_pos hzero, mem_insert, h.ledger k]
    · intro k
      simp only [Accounts.activate, if_pos hzero, mem_insert]
      exact Or.imp_right (h.clock k)
  · constructor
    · intro k
      simp only [Accounts.activate, if_neg hzero, mem_insert, ← h.ledger k,
        Std.LawfulEqCmp.compare_eq_iff_eq, or_iff_right_iff_imp]
      intro hk
      exact hk ▸ mem_active_of_ne_zero hzero
    · intro k
      simp only [Accounts.activate, if_neg hzero]
      exact h.clock k

theorem Booked.deactivate (h : Booked a) {key : K} (hkey : key ∈ a.active) : Booked (a.deactivate key) := by
  refine ⟨fun k => ?_, h.clock⟩
  simp only [Accounts.deactivate, mem_insert, ← h.ledger k,
    Std.LawfulEqCmp.compare_eq_iff_eq, or_iff_right_iff_imp]
  intro hk
  exact hk ▸ hkey

theorem Booked.setBalance (h : Booked a) {key : K} (hkey : key ∈ a.balances) (n : Int) :
    Booked { a with balances := a.balances.insert key n } := by
  constructor
  · intro k
    simp only [h.ledger k, mem_insert, Std.LawfulEqCmp.compare_eq_iff_eq]
    exact ⟨Or.inr, fun hk => hk.elim (fun heq => heq ▸ hkey) id⟩
  · intro k
    simp only [mem_insert, Std.LawfulEqCmp.compare_eq_iff_eq]
    rintro (rfl | hk)
    · exact h.clock key hkey
    · exact h.clock k hk

theorem Booked.endRound (h : Booked a) (nDockValue : Int) :
    Booked ((a.dock nDockValue).purge nDockValue) := by
  constructor
  · intro k
    simp only [purge, Std.ExtTreeMap.mem_filter, Std.ExtTreeMap.getKey_eq, dock,
      Std.ExtTreeMap.mem_map, exists_prop, h.ledger k]
  · intro k
    simp only [purge, Std.ExtTreeMap.mem_filter, dock, Std.ExtTreeMap.mem_map]
    exact fun ⟨hk, _⟩ => h.clock k hk

variable [DecidableEq K]

theorem Booked.move (h : Booked a) {old : K} (hold : old ∈ a.active) (new : K) (nTime : Int) :
    Booked (a.move old new nTime) := by
  rw [Accounts.move]
  split
  · exact h
  · exact (h.deactivate hold).activate new nTime

theorem Booked.apply (h : Booked a) (hc : Counted a) {op : AccountOp K} (hop : a.Allowed op) :
    Booked (a.apply op) := by
  cases op with
  | register nID manager delegate nTime =>
    exact ((h.setRole nID _).activate manager nTime).activate delegate nTime
  | setManager nID key nTime =>
    rw [Accounts.apply]
    split
    · exact h
    · next manager delegate hroles =>
      have hold := hc.mem_active hroles (named_manager_pos manager delegate)
      exact (h.move hold key nTime).setRole nID _
  | setDelegate nID key nTime =>
    rw [Accounts.apply]
    split
    · exact h
    · next manager delegate hroles =>
      have hold := hc.mem_active hroles (named_delegate_pos manager delegate)
      exact (h.move hold key nTime).setRole nID _
  | claim key nValue nTime =>
    obtain ⟨⟨n, hn, -⟩, -⟩ := hop
    have hkey : key ∈ a.balances := Tally.mem_of_getElem? hn
    exact (h.setBalance hkey _).setLastClaim key nTime
  | reward nID nManager nDelegate =>
    rw [Accounts.apply]
    split
    · exact h
    · next manager delegate hroles =>
      have hmanager := (h.ledger _).1 (hc.mem_active hroles (named_manager_pos manager delegate))
      have hdelegate := (h.ledger _).1 (hc.mem_active hroles (named_delegate_pos manager delegate))
      have hcredit : Booked (a.credit manager nManager) := h.setBalance hmanager _
      dsimp only
      split
      · refine hcredit.setBalance ?_ _
        exact mem_insert.2 (.inr hdelegate)
      · exact hcredit
  | endRound nDockValue => exact h.endRound nDockValue

theorem activeCount_endRound (hc : Counted a) (nDockValue : Int) (k : K) :
    ((a.dock nDockValue).purge nDockValue).activeCount k = a.activeCount k := by
  have hfilter : ((a.dock nDockValue).purge nDockValue).activeCount k =
      (a.active[k]?.filter fun _ => !(a.dock nDockValue).isLow nDockValue k).getD 0 :=
    Std.ExtTreeMap.getD_filter'
  rw [hfilter]
  cases hlow : (a.dock nDockValue).isLow nDockValue k with
  | false =>
    rw [activeCount, getD_eq_getD_getElem?]
    cases a.active[k]? <;> rfl
  | true =>
    have hle : a.activeCount k ≤ 0 := by
      rw [isLow, Bool.and_eq_true, decide_eq_true_eq] at hlow
      exact hlow.2
    have hcount := hc k
    have hnonneg := roleCount_nonneg a k
    rw [show a.activeCount k = 0 by omega]
    simp

theorem Counted.apply (hc : Counted a) {op : AccountOp K} (hop : a.Allowed op) : Counted (a.apply op) := by
  intro k
  have hk := hc k
  cases op with
  | register nID manager delegate nTime =>
    have hroles : (a.apply (.register nID manager delegate nTime)).roleCount k =
        a.roleCount k + named (manager, delegate) k := roleCount_setRole_new a hop _ k
    rw [hroles, Accounts.apply, activeCount_activate, activeCount_activate, activeCount_setRole, hk]
    simp only [named]
    omega
  | setManager nID key nTime =>
    rw [Accounts.apply]
    split
    · exact hk
    · next manager delegate hroles =>
      have hcount := roleCount_setRole (a.move manager key nTime)
        (by rw [roles_move]; exact hroles) (key, delegate) k
      rw [activeCount_setRole, activeCount_move, hcount, roleCount_congr a (roles_move ..), hk]
      simp only [named]
      omega
  | setDelegate nID key nTime =>
    rw [Accounts.apply]
    split
    · exact hk
    · next manager delegate hroles =>
      have hcount := roleCount_setRole (a.move delegate key nTime)
        (by rw [roles_move]; exact hroles) (manager, key) k
      rw [activeCount_setRole, activeCount_move, hcount, roleCount_congr a (roles_move ..), hk]
      simp only [named]
      omega
  | claim key nValue nTime => exact hk
  | reward nID nManager nDelegate =>
    rw [Accounts.apply]
    split
    · exact hk
    · dsimp only
      split <;> exact hk
  | endRound nDockValue =>
    rw [Accounts.apply, activeCount_endRound hc]
    exact hk

theorem run_booked {ops : List (AccountOp K)} (hb : Booked a) (hc : Counted a)
    (hops : a.AllAllowed ops) : Booked (a.run ops) ∧ Counted (a.run ops) := by
  induction ops generalizing a with
  | nil => exact ⟨hb, hc⟩
  | cons op ops ih => exact ih (hb.apply hc hops.1) (hc.apply hops.1) hops.2

end Invariants

end Accounts

end Stealth

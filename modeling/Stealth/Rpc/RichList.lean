import Mathlib.Data.Set.Card
import Stealth.Chain.Unserialize
import Stealth.Lib.Fallible
import Stealth.Rpc.Pagination

/-! The rich list: sets of addresses with equal balances above dust, and the counts of these sets, richest first. -/

namespace Stealth.RichList

open Pagination

/-- Balances with coherent sets and counts. Each set is a list in the order in which it is read. -/
structure Explorer where
  nMaxDust : Int
  addrBalance : Bytes → Option Int
  mapAddressBalances : List (Int × UInt32)
  readAddrSet : Int → Option (List Bytes)
  formatMoney : Int → String
  readable : ∀ n s, readAddrSet n = some s → s.length ≤ MAX_SIZE
  descending : mapAddressBalances.Pairwise fun e e' => e'.1 < e.1
  counted : ∀ e ∈ mapAddressBalances, ∃ s, readAddrSet e.1 = some s ∧ s.Nodup ∧ s.length = e.2.toNat ∧
    ∀ addr, addr ∈ s ↔ addrBalance addr = some e.1
  listed : ∀ n, (∃ e ∈ mapAddressBalances, e.1 = n) ↔ nMaxDust < n ∧ ∃ addr, addrBalance addr = some n

namespace Explorer

variable (E : Explorer)

def getRichListFrom (nStart nLimit : Int) : Int → List (Int × UInt32) → Except Stop (List (Bytes × Int))
  | _, [] => .ok []
  | nCount, (nBalance, n) :: rest => do
    let nSize : Int := Int.bmod n.toNat (2 ^ 32)
    let nNext ← int (nSize + nCount)
    if nNext < nStart then getRichListFrom nStart nLimit nNext rest
    else
      match E.readAddrSet nBalance with
      | none => throw (.thrown ("TSNH: unable to read balance set " ++ E.formatMoney nBalance))
      | some s =>
        if nSize ≠ Int.bmod s.length (2 ^ 32) then
          throw (.thrown ("TSNH: balance set " ++ E.formatMoney nBalance ++ " size mismatch"))
        -- one is added for each address
        let nCount ← int (nCount + s.length)
        let found := s.map (·, nBalance)
        if nCount ≥ nLimit then return found
        return found ++ (← getRichListFrom nStart nLimit nCount rest)

def getRichList (nStart nMax : Int) : Except Stop (List (Bytes × Int)) := do
  let nLimit ← int ((← int (nStart + nMax)) - 1)
  E.getRichListFrom nStart nLimit 0 E.mapAddressBalances

/-- The loop of `GetAddrInfo`. Adding an `unsigned int` to the rank wraps. -/
def rankFrom (nBalance : Int) : Int → List (Int × UInt32) → Except Stop Int
  | nRank, [] => .ok nRank
  | nRank, (n, count) :: rest =>
    if n < nBalance then .ok nRank
    else if n = nBalance then int (nRank + 1)
    else rankFrom nBalance (Int.bmod (nRank + count.toNat) (2 ^ 32)) rest

def rank (nBalance : Int) : Except Stop Int :=
  if nBalance > E.nMaxDust then rankFrom nBalance 0 E.mapAddressBalances else .ok 0

noncomputable def richer (n : Int) : Nat := {addr | ∃ m, E.addrBalance addr = some m ∧ n < m}.ncard

def members (n : Int) : List Bytes := (E.readAddrSet n).getD []

/-- The groups whose ranks meet `first` to `last`, richest first. -/
noncomputable def meeting (first last : Int) (l : List (Int × UInt32)) : List (Bytes × Int) :=
  (l.filter fun e => first ≤ E.richer e.1 + e.2.toNat ∧ E.richer e.1 + 1 ≤ last).flatMap fun e =>
    (E.members e.1).map (·, e.1)

variable {E} {e : Int × UInt32} {pre post l : List (Int × UInt32)} {nStart nLimit n : Int} {addr : Bytes}

def total (l : List (Int × UInt32)) : Nat := (l.map (·.2.toNat)).sum

theorem members_eq (he : e ∈ E.mapAddressBalances) : E.readAddrSet e.1 = some (E.members e.1) ∧
    (E.members e.1).Nodup ∧ (E.members e.1).length = e.2.toNat ∧
    ∀ addr, addr ∈ E.members e.1 ↔ E.addrBalance addr = some e.1 := by
  obtain ⟨s, hs, h⟩ := E.counted e he
  rw [members, hs]
  exact ⟨rfl, h⟩

/-- The addresses that are richer than a group are those of the groups before it. -/
theorem richer_eq (h : E.mapAddressBalances = pre ++ e :: post) : E.richer e.1 = total pre := by
  have hsorted := E.descending
  rw [h, List.pairwise_append, List.pairwise_cons] at hsorted
  obtain ⟨hpre, ⟨hpost, -⟩, hsep⟩ := hsorted
  have hmem : ∀ e' ∈ pre, e' ∈ E.mapAddressBalances := fun e' he' => h ▸ List.mem_append_left _ he'
  have hset : {addr | ∃ m, E.addrBalance addr = some m ∧ e.1 < m} =
      ((pre.flatMap fun e' => E.members e'.1).toFinset : Set Bytes) := by
    ext addr
    simp only [Set.mem_ofPred_eq, List.coe_toFinset, List.mem_flatMap]
    constructor
    · rintro ⟨m, hm, hlt⟩
      have hdust := ((E.listed e.1).1 ⟨e, by simp [h], rfl⟩).1
      obtain ⟨e', he', rfl⟩ := (E.listed m).2 ⟨by omega, addr, hm⟩
      refine ⟨e', ?_, ((members_eq he').2.2.2 addr).2 hm⟩
      rw [h, List.mem_append, List.mem_cons] at he'
      obtain he' | rfl | he' := he'
      · exact he'
      · omega
      · exact absurd (hpost e' he') (by omega)
    · rintro ⟨e', he', haddr⟩
      exact ⟨e'.1, ((members_eq (hmem e' he')).2.2.2 addr).1 haddr, hsep e' he' e List.mem_cons_self⟩
  have hnodup : (pre.flatMap fun e' => E.members e'.1).Nodup := by
    refine List.nodup_flatMap.2 ⟨fun e' he' => (members_eq (hmem e' he')).2.1, ?_⟩
    refine hpre.imp_of_mem fun {e₁ e₂} h₁ h₂ hlt addr ha₁ ha₂ => ?_
    have heq := ((members_eq (hmem e₁ h₁)).2.2.2 addr).1 ha₁
    rw [((members_eq (hmem e₂ h₂)).2.2.2 addr).1 ha₂] at heq
    exact Int.ne_of_lt hlt (Option.some.inj heq)
  rw [richer, hset, Set.ncard_coe_finset, List.toFinset_card_of_nodup hnodup, List.length_flatMap, total]
  exact congrArg List.sum (List.map_congr_left fun e' he' => (members_eq (hmem e' he')).2.2.1)

theorem total_append (l l' : List (Int × UInt32)) : total (l ++ l') = total l + total l' := by
  rw [total, List.map_append, List.sum_append, total, total]

theorem le_richer_of_mem (h : E.mapAddressBalances = pre ++ l) (he : e ∈ l) : total pre ≤ E.richer e.1 := by
  obtain ⟨l₁, l₂, rfl⟩ := List.append_of_mem he
  rw [← List.append_assoc] at h
  rw [richer_eq h, total_append]
  exact Nat.le_add_right _ _

/-- With coherent sets no round of the loop throws, and no size is negative as an `int`. -/
theorem getRichListFrom_cons (nCount : Int) (he : e ∈ E.mapAddressBalances) :
    E.getRichListFrom nStart nLimit nCount (e :: l) = (do
      let nNext ← int (e.2.toNat + nCount)
      if nNext < nStart then E.getRichListFrom nStart nLimit nNext l
      else
        let nCount ← int (nCount + e.2.toNat)
        let found := (E.members e.1).map (·, e.1)
        if nCount ≥ nLimit then return found
        return found ++ (← E.getRichListFrom nStart nLimit nCount l)) := by
  obtain ⟨hread, -, hlen, -⟩ := members_eq he
  have hle := E.readable _ _ hread
  rw [hlen, MAX_SIZE] at hle
  have hsize : Int.bmod e.2.toNat (2 ^ 32) = e.2.toNat := Int.bmod_eq_of_le (by omega) (by omega)
  rw [getRichListFrom, hread]
  simp only [hlen, hsize, ne_eq, not_true_eq_false, if_false]

theorem getRichListFrom_iff (hstart : nStart ≤ nLimit) (hmax : nLimit ≤ INT_MAX)
    (h : E.mapAddressBalances = pre ++ l) (hlt : (total pre : Int) < nLimit) :
    E.getRichListFrom nStart nLimit (total pre) l = .ok (E.meeting nStart nLimit l) ↔
      ∀ e ∈ l, (E.richer e.1 : Int) < nLimit → (E.richer e.1 : Int) + e.2.toNat ≤ INT_MAX := by
  induction l generalizing pre with
  | nil => simp [getRichListFrom, meeting]
  | cons e l ih =>
    have hint : INT_MAX = 2147483647 := rfl
    have he : e ∈ E.mapAddressBalances := by simp [h]
    have hrich := richer_eq h
    have hnext : E.mapAddressBalances = (pre ++ [e]) ++ l := by simp [h]
    have htotal : (total (pre ++ [e]) : Int) = total pre + e.2.toNat := by simp [total]
    rw [List.forall_mem_cons, hrich]
    by_cases hover : INT_MAX < (total pre : Int) + e.2.toNat
    · refine iff_of_false (fun hok => ?_) fun hall => absurd (hall.1 hlt) (Int.not_le.2 hover)
      rw [getRichListFrom_cons _ he, Int.add_comm, int_bind_overflow _ hover] at hok
      cases hok
    · rw [and_iff_right fun _ => Int.not_lt.1 hover, getRichListFrom_cons _ he,
        int_bind_of _ (by omega) (by omega)]
      by_cases hskip : (e.2.toNat : Int) + total pre < nStart
      · have hmeeting : E.meeting nStart nLimit (e :: l) = E.meeting nStart nLimit l := by
          rw [meeting, List.filter_cons_of_neg (by simp only [decide_eq_true_eq]; omega), meeting]
        rw [if_pos hskip, hmeeting, Int.add_comm, ← htotal]
        exact ih hnext (by omega)
      · have hmeeting : E.meeting nStart nLimit (e :: l) =
            (E.members e.1).map (·, e.1) ++ E.meeting nStart nLimit l := by
          rw [meeting, List.filter_cons_of_pos (by simp only [decide_eq_true_eq]; omega), List.flatMap_cons, meeting]
        rw [if_neg hskip, hmeeting, int_bind_of _ (by omega) (by omega), ← htotal]
        dsimp only
        by_cases hdone : (total (pre ++ [e]) : Int) ≥ nLimit
        · have hlater : ∀ e' ∈ l, ¬ (E.richer e'.1 : Int) < nLimit := by
            intro e' he'
            have hle := le_richer_of_mem hnext he'
            omega
          have hnone : E.meeting nStart nLimit l = [] := by
            rw [meeting, List.filter_eq_nil_iff.2 fun e' he' => ?_, List.flatMap_nil]
            have := hlater e' he'
            simp only [decide_eq_true_eq]
            omega
          rw [if_pos hdone, hnone, List.append_nil]
          exact iff_of_true rfl fun e' he' hlt' => absurd hlt' (hlater e' he')
        · rw [if_neg hdone, ← ih hnext (by omega), Fallible.bind_eq_ok_iff]
          simp [pure, Except.pure]

theorem rankFrom_append {count : UInt32} : ∀ {pre} (nRank : Int),
    (∀ e ∈ pre, n < e.1) → rankFrom n (Int.bmod nRank (2 ^ 32)) (pre ++ (n, count) :: post) =
      int (Int.bmod (nRank + total pre) (2 ^ 32) + 1)
  | [], nRank, _ => by simp [rankFrom, total]
  | e :: pre, nRank, h => by
    obtain ⟨he, hpre⟩ := List.forall_mem_cons.1 h
    rw [List.cons_append, rankFrom, if_neg (by omega), if_neg (by omega), Int.bmod_add_bmod,
      rankFrom_append _ hpre]
    simp [total, Int.add_assoc]

theorem rank_iff (hn : E.addrBalance addr = some n) (hdust : E.nMaxDust < n) :
    E.rank n = .ok (E.richer n + 1) ↔ (E.richer n : Int) + 1 ≤ INT_MAX := by
  obtain ⟨⟨n, count⟩, he, rfl⟩ := (E.listed n).2 ⟨hdust, addr, hn⟩
  obtain ⟨pre, post, h⟩ := List.append_of_mem he
  have hpre : ∀ e' ∈ pre, n < e'.1 := by
    have hsorted := E.descending
    rw [h, List.pairwise_append] at hsorted
    exact fun e' he' => hsorted.2.2 e' he' _ List.mem_cons_self
  have hrank : E.rank n = int (Int.bmod (total pre) (2 ^ 32) + 1) := by
    have hfrom := @rankFrom_append post n count pre 0 hpre
    rw [Int.zero_bmod, Int.zero_add] at hfrom
    rw [rank, if_pos hdust, h, hfrom]
  rw [hrank, richer_eq h, int, INT_MAX]
  split <;> grind

/-- The list has exactly the groups that meet the ranks, and the rank of an address is right, as long as the ranks
that are passed fit an `int`. -/
theorem getRichList_rank_iff {nMax : Int} (hstart : 1 ≤ nStart) (hmax : 1 ≤ nMax)
    (hfit : nStart + nMax ≤ INT_MAX) :
    (E.getRichList nStart nMax = .ok (E.meeting nStart (nStart + nMax - 1) E.mapAddressBalances) ↔
      ∀ e ∈ E.mapAddressBalances, (E.richer e.1 : Int) < nStart + nMax - 1 →
        (E.richer e.1 : Int) + e.2.toNat ≤ INT_MAX) ∧
    ∀ addr n, E.addrBalance addr = some n → E.nMaxDust < n →
      (E.rank n = .ok (E.richer n + 1) ↔ (E.richer n : Int) + 1 ≤ INT_MAX) := by
  have hint : INT_MAX = 2147483647 := rfl
  refine ⟨?_, fun addr n => rank_iff⟩
  rw [getRichList, int_bind_of _ (by omega) hfit, int_bind_of _ (by omega) (by omega)]
  exact @getRichListFrom_iff E [] _ _ _ (by omega) (by omega) rfl (by simp [total]; omega)

end Explorer

/-- The addresses of the `j`-th group of `n`. -/
def group (n j : Nat) : List Bytes := (List.range' (j * n) n).map (List.replicate · 0)

theorem mem_group {n j : Nat} {addr : Bytes} :
    addr ∈ group n j ↔ addr = List.replicate addr.length 0 ∧ j * n ≤ addr.length ∧ addr.length < j * n + n := by
  simp only [group, List.mem_map, List.mem_range'_1]
  constructor
  · rintro ⟨i, hi, rfl⟩
    simpa using hi
  · rintro ⟨haddr, hi⟩
    exact ⟨addr.length, hi, haddr.symm⟩

/-- Each of `k` balances is held by `n` addresses. -/
def grouped (k n : Nat) (hpos : 0 < n) (hn : n ≤ MAX_SIZE) : Explorer where
  nMaxDust := 0
  addrBalance addr :=
    if addr = List.replicate addr.length 0 ∧ addr.length / n < k then some (10000 + (addr.length / n : Nat))
    else none
  mapAddressBalances := (List.range k).reverse.map fun j : Nat => (10000 + (j : Int), UInt32.ofNat n)
  readAddrSet b := if 10000 ≤ b ∧ b < 10000 + k then some (group n (b - 10000).toNat) else none
  formatMoney _ := ""
  readable b s h := by
    rw [Option.ite_none_right_eq_some] at h
    rw [← Option.some.inj h.2, group, List.length_map, List.length_range']
    exact hn
  descending := by
    rw [List.pairwise_map, List.pairwise_reverse]
    exact List.pairwise_lt_range.imp fun h => by simpa using h
  counted := by
    simp only [List.forall_mem_map, List.mem_reverse, List.mem_range]
    intro j hj
    refine ⟨group n j, by simp [hj], ?_, ?_, fun addr => ?_⟩
    · exact (List.nodup_range' 1).map fun m n h => by simpa using congrArg List.length h
    · rw [group, List.length_map, List.length_range', UInt32.toNat_ofNat_of_lt']
      exact Nat.lt_of_le_of_lt hn (by decide)
    · rw [mem_group, Option.ite_none_right_eq_some, Option.some_inj, and_assoc, and_congr_right_iff]
      intro _
      have := @Nat.div_eq_iff n addr.length j hpos
      have := Nat.succ_mul j n
      omega
  listed b := by
    simp only [List.mem_map, List.mem_reverse, List.mem_range, Option.ite_none_right_eq_some, Option.some_inj]
    constructor
    · rintro ⟨e, ⟨j, hj, rfl⟩, rfl⟩
      refine ⟨by dsimp only; omega, List.replicate (j * n) 0, ?_⟩
      simp [Nat.mul_div_cancel j hpos, hj]
    · rintro ⟨-, addr, ⟨-, hlt⟩, rfl⟩
      exact ⟨_, ⟨addr.length / n, hlt, rfl⟩, rfl⟩

theorem getRichList_rank_iff_lone : (grouped 1 1 (by decide) (by decide)).getRichList 1 1 = .ok [([], 10000)] ∧
    (grouped 1 1 (by decide) (by decide)).rank 10000 = .ok 1 := by
  have h := @Explorer.getRichList_rank_iff (grouped 1 1 (by decide) (by decide)) 1 1 (by decide) (by decide)
    (by decide)
  have hrank := h.2 [] 10000 rfl (by decide)
  have hricher : (grouped 1 1 (by decide) (by decide)).richer 10000 = 0 :=
    @Explorer.richer_eq _ (10000, 1) [] [] rfl
  rw [hricher] at hrank
  exact ⟨by decide, hrank.2 (by decide)⟩

/-- The last of 64 groups of `MAX_SIZE` addresses ends at the rank `2 ^ 31`. -/
theorem getRichList_overflows : (grouped 64 MAX_SIZE (by decide) (by decide)).getRichList (63 * MAX_SIZE + 1) 1 =
    .error .overflow := by
  decide +kernel

end Stealth.RichList

import Mathlib.Tactic.Ring

/-!
The pages of a paginated call, in `int`s. One that overflows has no value in C++, so it stops the model.
-/

namespace Stealth.Pagination

inductive Stop where
  | thrown (what : String)
  | overflow
  deriving DecidableEq, Repr

def INT_MAX : Int := 2147483647

def int (x : Int) : Except Stop Int := if -INT_MAX - 1 ≤ x ∧ x ≤ INT_MAX then .ok x else .error .overflow

/-- `pagination_t`; nothing sets or reads its field `finish`. -/
structure pagination_t where
  page : Int
  per_page : Int
  forward : Bool
  start : Int
  max : Int
  last_page : Int
  deriving DecidableEq, Repr

def getPagination (page per_page : Int) (forward : Option Bool) (nTotal : Int) :
    Except Stop pagination_t := do
  if page < 1 then throw (.thrown "Number of pages must be greater than 1.")
  if per_page < 1 then throw (.thrown "Number per page must be greater than 1.")
  let forward := forward.getD true
  -- both orders start from the same product and refuse the same pages
  let first ← int (1 + (← int ((page - 1) * per_page)))
  if first > nTotal then throw (.thrown "Start exceeds total number of in-outs.")
  let (start, nFinish) ←
    if forward then do
      let nLast ← int ((← int (first + per_page)) - 1)
      pure (first, min nLast nTotal)
    else do
      let nLast_r ← int (page * per_page)
      let nFirst ← int (1 + (← int (nTotal - nLast_r)))
      let nFinish ← int (1 + (← int (nTotal - first)))
      pure (max 1 nFirst, nFinish)
  let nSize ← int ((← int (nFinish - start)) + 1)
  return ⟨page, per_page, forward, start, min nSize per_page, 1 + (nTotal - 1).tdiv per_page⟩

/-- The loop of `GetInOuts` and `GetAddrTxs`, which computes `i + 1` also after the last item. -/
def itemsFrom (i nStop : Int) : Except Stop (List Int) :=
  if i ≤ nStop then do
    let _ ← int (i + 1)
    return i :: (← itemsFrom (i + 1) nStop)
  else return []
termination_by (nStop + 1 - i).toNat

def getInOuts (nStart nMax nQtyInOuts : Int) : Except Stop (List Int) := do
  let nStop := min (← int ((← int (nStart + nMax)) - 1)) nQtyInOuts
  itemsFrom nStart nStop

/-- The items that a paginated call lists, in the order in which it lists them. -/
def listPage (page per_page : Int) (forward : Option Bool) (nTotal : Int) : Except Stop (List Int) := do
  let pg ← getPagination page per_page forward nTotal
  let items ← getInOuts pg.start pg.max nTotal
  return if pg.forward then items else items.reverse

/-- How a caller divides a sequence: any positive `int`s and any order. -/
structure Query where
  per_page : Int
  order : Option Bool
  nTotal : Int
  per_page_pos : 1 ≤ per_page
  per_page_le : per_page ≤ INT_MAX
  nTotal_pos : 1 ≤ nTotal
  nTotal_le : nTotal ≤ INT_MAX

namespace Query

def forward (q : Query) : Bool := q.order.getD true

def pagination (q : Query) (page : Int) : Except Stop pagination_t :=
  getPagination page q.per_page q.order q.nTotal

def items (q : Query) : List Int :=
  let l := (List.range' 1 q.nTotal.toNat).map Nat.cast
  if q.forward then l else l.reverse

def pageItems (q : Query) (page : Int) : List Int :=
  (q.items.drop ((page - 1) * q.per_page).toNat).take q.per_page.toNat

def lastPage (q : Query) : Int := 1 + (q.nTotal - 1) / q.per_page

def first (q : Query) (page : Int) : Int :=
  if q.forward then 1 + (page - 1) * q.per_page else max 1 (1 + (q.nTotal - page * q.per_page))

def last (q : Query) (page : Int) : Int :=
  if q.forward then min (page * q.per_page) q.nTotal else q.nTotal - (page - 1) * q.per_page

/-- What `GetPagination` computes stays in the range of an `int`. -/
def Fits (q : Query) (page : Int) : Prop :=
  (page - 1) * q.per_page ≤ INT_MAX - 1 ∧
    (page ≤ q.lastPage → page * q.per_page ≤ if q.forward then INT_MAX - 1 else INT_MAX)

instance (q : Query) (page : Int) : Decidable (q.Fits page) := by
  unfold Fits
  infer_instance

/-- A page beyond the last one is refused, any other has a window inside `1..nTotal`. -/
def Windowed (q : Query) (page : Int) : Prop :=
  match q.pagination page with
  | .ok pg => page ≤ q.lastPage ∧ pg.last_page = q.lastPage ∧
      1 ≤ pg.start ∧ 1 ≤ pg.max ∧ pg.start + pg.max - 1 ≤ q.nTotal
  | .error (.thrown _) => q.lastPage < page
  | .error .overflow => False

def InWindow (q : Query) (page i : Int) : Prop :=
  ∃ pg, q.pagination page = .ok pg ∧ pg.start ≤ i ∧ i < pg.start + pg.max

/-- The windows of the pages `1..last_page` are disjoint and cover `1..nTotal`. -/
def Partition (q : Query) : Prop :=
  ∀ i, 1 ≤ i → i ≤ q.nTotal → ∃! page, (1 ≤ page ∧ page ≤ q.lastPage) ∧ q.InWindow page i

end Query

section

variable {α : Type} (f : Int → Except Stop α) {x : Int}

theorem int_bind_of (h : -INT_MAX - 1 ≤ x) (h' : x ≤ INT_MAX) : (int x >>= f) = f x := by
  rw [int, if_pos ⟨h, h'⟩]
  rfl

theorem int_bind_overflow (h : INT_MAX < x) : (int x >>= f) = .error .overflow := by
  rw [int, if_neg fun hx => absurd hx.2 (by omega)]
  rfl

end

namespace Query

variable {q : Query} {page i : Int}

theorem le_lastPage_iff : page ≤ q.lastPage ↔ (page - 1) * q.per_page < q.nTotal := by
  have hdiv := Int.le_ediv_iff_mul_le (a := page - 1) (b := q.nTotal - 1) q.per_page_pos
  rw [lastPage]
  omega

/-- What comes before a page, and the items of the page on top of it. -/
theorem before_page (q : Query) (hpage : 1 ≤ page) : 0 ≤ (page - 1) * q.per_page ∧
    page * q.per_page = (page - 1) * q.per_page + q.per_page := by
  have hper := q.per_page_pos
  exact ⟨Int.mul_nonneg (by omega) (by omega), by ring⟩

theorem pagination_eq (q : Query) (hpage : 1 ≤ page) : q.pagination page = if q.Fits page then
      if page ≤ q.lastPage then
        .ok ⟨page, q.per_page, q.forward, q.first page, q.last page - q.first page + 1, q.lastPage⟩
      else .error (.thrown "Start exceeds total number of in-outs.")
    else .error .overflow := by
  have hmax : INT_MAX = 2147483647 := rfl
  obtain ⟨hnonneg, hmul⟩ := q.before_page hpage
  have hlast : page ≤ q.lastPage ↔ (page - 1) * q.per_page < q.nTotal := le_lastPage_iff
  have hper := q.per_page_pos
  have hper' := q.per_page_le
  have htotal := q.nTotal_pos
  have htotal' := q.nTotal_le
  rw [pagination, getPagination, if_neg (by omega), if_neg (by omega),
    Int.tdiv_eq_ediv_of_nonneg (by omega), ← lastPage, ← forward]
  simp only [Fits, first, last, hlast]
  rw [hmul]
  generalize (page - 1) * q.per_page = n at *
  simp only [pure_bind]
  by_cases hn : n ≤ INT_MAX - 1
  · rw [int_bind_of _ (by omega) (by omega), int_bind_of _ (by omega) (by omega)]
    by_cases hle : n < q.nTotal
    · simp only [hn, hle, forall_true_left, true_and, if_true, if_neg (show ¬ 1 + n > q.nTotal by omega)]
      cases q.forward with
      | true =>
        simp only [if_true]
        by_cases hsum : n + q.per_page ≤ INT_MAX - 1
        · rw [if_pos hsum]
          iterate 4 rw [int_bind_of _ (by omega) (by omega)]
          refine congrArg Except.ok ?_
          congr 1
          omega
        · rw [if_neg hsum, int_bind_overflow _ (by omega)]
      | false =>
        simp only [Bool.false_eq_true, if_false]
        by_cases hsum : n + q.per_page ≤ INT_MAX
        · rw [if_pos hsum]
          iterate 7 rw [int_bind_of _ (by omega) (by omega)]
          refine congrArg Except.ok ?_
          congr 1
          omega
        · rw [if_neg hsum, int_bind_overflow _ (by omega)]
    · simp only [hn, hle, false_imp_iff, and_true, if_true, if_false,
        if_pos (show 1 + n > q.nTotal by omega)]
      rfl
  · rw [if_neg fun h => hn h.1]
    by_cases hmax' : n ≤ INT_MAX
    · rw [int_bind_of _ (by omega) hmax', int_bind_overflow _ (by omega)]
    · rw [int_bind_overflow _ (by omega)]

def pageNumber (q : Query) (i : Int) : Int :=
  1 + ((if q.forward then i else q.nTotal + 1 - i) - 1) / q.per_page

theorem first_le_last (hpage : 1 ≤ page) (hlast : page ≤ q.lastPage) :
    1 ≤ q.first page ∧ q.first page ≤ q.last page ∧ q.last page ≤ q.nTotal := by
  obtain ⟨hnonneg, hmul⟩ := q.before_page hpage
  have hper := q.per_page_pos
  have hlt := le_lastPage_iff.1 hlast
  rw [first, last, hmul]
  split <;> omega

theorem mem_page_iff (hi : 1 ≤ i) (hi' : i ≤ q.nTotal) :
    q.first page ≤ i ∧ i ≤ q.last page ↔ page = q.pageNumber i := by
  rw [first, last, pageNumber]
  have hbounds : ∀ pos, (page - 1) * q.per_page ≤ pos ∧ pos < page * q.per_page ↔
      page = 1 + pos / q.per_page := by
    intro pos
    rw [← Int.le_ediv_iff_mul_le q.per_page_pos, ← Int.ediv_lt_iff_lt_mul q.per_page_pos]
    omega
  split <;> rw [← hbounds] <;> omega

theorem pageNumber_bounds (hi : 1 ≤ i) (hi' : i ≤ q.nTotal) :
    1 ≤ q.pageNumber i ∧ q.pageNumber i ≤ q.lastPage := by
  have hper := q.per_page_pos
  have hbounds : ∀ pos, 0 ≤ pos → pos ≤ q.nTotal - 1 →
      0 ≤ pos / q.per_page ∧ pos / q.per_page ≤ (q.nTotal - 1) / q.per_page := fun pos hpos hpos' =>
    ⟨Int.ediv_nonneg hpos (by omega), Int.ediv_le_ediv (by omega) hpos'⟩
  rw [pageNumber, lastPage]
  split
  · have := hbounds (i - 1) (by omega) (by omega)
    omega
  · have := hbounds (q.nTotal + 1 - i - 1) (by omega) (by omega)
    omega

theorem inWindow_iff (hpage : 1 ≤ page) (hlast : page ≤ q.lastPage) (hi : 1 ≤ i) (hi' : i ≤ q.nTotal) :
    q.InWindow page i ↔ q.Fits page ∧ page = q.pageNumber i := by
  rw [InWindow, q.pagination_eq hpage, ← mem_page_iff hi hi', if_pos hlast]
  split
  · next hfits =>
    constructor
    · rintro ⟨pg, hpg, hmem⟩
      cases hpg
      exact ⟨hfits, hmem.1, by dsimp only at hmem; omega⟩
    · rintro ⟨-, hfirst, hlast⟩
      exact ⟨_, rfl, hfirst, by dsimp only; omega⟩
  · next hfits => exact iff_of_false (fun ⟨_, h, _⟩ => nomatch h) fun h => hfits h.1

theorem itemsFrom_eq (n k : Nat) (h : (k : Int) + n ≤ INT_MAX) :
    itemsFrom k (k + n - 1) = .ok ((List.range' k n).map Nat.cast) := by
  have hmax : INT_MAX = 2147483647 := rfl
  induction n generalizing k with
  | zero =>
    rw [itemsFrom, if_neg (by omega)]
    rfl
  | succ n ih =>
    have hrest := ih (k + 1) (by omega)
    rw [itemsFrom, if_pos (by omega), int_bind_of _ (by omega) (by omega),
      show (k : Int) + 1 = (k + 1 : Nat) from rfl,
      show (k : Int) + (n + 1 : Nat) - 1 = (k + 1 : Nat) + n - 1 by omega, hrest]
    rfl

theorem getInOuts_eq {nStart nMax : Nat} {nQty : Int} (hmax : (nStart : Int) + nMax - 1 ≤ nQty)
    (hstart : 1 ≤ nStart + nMax) : getInOuts nStart nMax nQty = if (nStart : Int) + nMax ≤ INT_MAX then
      .ok ((List.range' nStart nMax).map Nat.cast) else .error .overflow := by
  have hint : INT_MAX = 2147483647 := rfl
  rw [getInOuts]
  split
  · next h =>
    rw [int_bind_of _ (by omega) h, int_bind_of _ (by omega) (by omega), min_eq_left hmax]
    exact itemsFrom_eq nMax nStart h
  · rw [int_bind_overflow _ (by omega)]

theorem take_range'_eq_min (s n k : Nat) : (List.range' s n).take k = List.range' s (min k n) := by
  rcases Nat.le_total k n with h | h
  · rw [List.take_range'_of_length_ge h, Nat.min_eq_left h]
  · rw [List.take_range'_of_length_le h, Nat.min_eq_right h]

theorem pageItems_eq (hpage : 1 ≤ page) (hlast : page ≤ q.lastPage) : q.pageItems page =
    let l := (List.range' (q.first page).toNat (q.last page - q.first page + 1).toNat).map Nat.cast
    if q.forward then l else l.reverse := by
  obtain ⟨hnonneg, hmul⟩ := q.before_page hpage
  have hper := q.per_page_pos
  have hlt := le_lastPage_iff.1 hlast
  rw [pageItems, items, first, last, hmul]
  generalize (page - 1) * q.per_page = n at *
  cases q.forward with
  | true =>
    simp only [if_true, ← List.map_drop, ← List.map_take, List.drop_range', take_range'_eq_min]
    congr 2 <;> omega
  | false =>
    simp only [Bool.false_eq_true, if_false, List.drop_reverse, List.take_reverse, ← List.map_drop,
      ← List.map_take, take_range'_eq_min, List.drop_range', List.length_map, List.length_range']
    congr 3 <;> omega

theorem windowed_iff (hpage : 1 ≤ page) : q.Windowed page ↔ q.Fits page := by
  rw [Windowed, q.pagination_eq hpage]
  by_cases hfits : q.Fits page
  · rw [if_pos hfits]
    split_ifs with hlast
    · have := first_le_last hpage hlast
      refine iff_of_true ⟨hlast, rfl, this.1, ?_, ?_⟩ hfits <;> dsimp only <;> omega
    · exact iff_of_true (Int.not_le.1 hlast) hfits
  · rw [if_neg hfits]
    exact iff_of_false id hfits

theorem partition_iff : q.Partition ↔ ∀ page, 1 ≤ page → page ≤ q.lastPage → q.Fits page := by
  refine ⟨fun h page hpage hlast => ?_, fun h i hi hi' => ?_⟩
  · -- the first item of the page is covered, and by no other page
    obtain ⟨hfirst, hle, hle'⟩ := first_le_last hpage hlast
    obtain ⟨page', ⟨⟨hpage', hlast'⟩, hin⟩, -⟩ := h _ hfirst (hle.trans hle')
    obtain ⟨hfits, hnumber⟩ := (inWindow_iff hpage' hlast' hfirst (hle.trans hle')).1 hin
    rwa [(mem_page_iff hfirst (hle.trans hle')).1 ⟨Int.le_refl _, hle⟩, ← hnumber]
  · obtain ⟨hone, hlast⟩ := pageNumber_bounds hi hi'
    refine ⟨_, ⟨⟨hone, hlast⟩, (inWindow_iff hone hlast hi hi').2 ⟨h _ hone hlast, rfl⟩⟩, ?_⟩
    rintro page ⟨⟨hpage, hlast⟩, hin⟩
    exact ((inWindow_iff hpage hlast hi hi').1 hin).2

theorem listPage_iff (hpage : 1 ≤ page) (hlast : page ≤ q.lastPage) :
    listPage page q.per_page q.order q.nTotal = .ok (q.pageItems page) ↔
      q.Fits page ∧ q.last page < INT_MAX := by
  have hitem := first_le_last hpage hlast
  have heq := q.pagination_eq hpage
  rw [pagination, if_pos hlast] at heq
  rw [pageItems_eq hpage hlast, listPage, heq]
  by_cases hfits : q.Fits page
  · obtain ⟨first, hfirst⟩ := Int.eq_ofNat_of_zero_le (by omega : 0 ≤ q.first page)
    obtain ⟨size, hsize⟩ := Int.eq_ofNat_of_zero_le (by omega : 0 ≤ q.last page - q.first page + 1)
    rw [if_pos hfits, hsize, hfirst]
    change (getInOuts first size q.nTotal >>= _) = _ ↔ _
    rw [@getInOuts_eq first size q.nTotal (by omega) (by omega)]
    by_cases hend : (first : Int) + size ≤ INT_MAX
    · rw [if_pos hend]
      exact iff_of_true rfl ⟨hfits, by omega⟩
    · rw [if_neg hend]
      exact iff_of_false (fun h => nomatch h) fun h => hend (by omega)
  · rw [if_neg hfits]
    exact iff_of_false (fun h => nomatch h) fun h => hfits h.1

/-- A page has the right window exactly as long as its computation does not overflow, the windows
partition the items exactly if this holds for all pages, and a page then lists the items of the same page
of the sequence in its order, unless it ends on the greatest `int`. -/
theorem pagination_iff (q : Query) : (∀ page, 1 ≤ page → (q.Windowed page ↔ q.Fits page)) ∧
    (q.Partition ↔ ∀ page, 1 ≤ page → page ≤ q.lastPage → q.Fits page) ∧
    ∀ page, 1 ≤ page → page ≤ q.lastPage →
      (listPage page q.per_page q.order q.nTotal = .ok (q.pageItems page) ↔
        q.Fits page ∧ q.last page < INT_MAX) :=
  ⟨fun _ => windowed_iff, partition_iff, fun _ => listPage_iff⟩

/-- Ten items by three, forward. -/
def tenByThree : Query := ⟨3, none, 10, by decide, by decide, by decide, by decide⟩

/-- A page far beyond the last one is not refused: the product with its size overflows. -/
theorem pagination_overflow : tenByThree.lastPage < 715827884 ∧
    tenByThree.pagination 715827884 = .error .overflow ∧ ¬ tenByThree.Windowed 715827884 := by
  have h : tenByThree.pagination 715827884 = .error .overflow := rfl
  refine ⟨by decide, h, ?_⟩
  rw [Windowed, h]
  exact id

end Query

end Stealth.Pagination

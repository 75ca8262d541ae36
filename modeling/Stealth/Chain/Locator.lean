import Stealth.ChainParams

/-!
Block locators. Up to a step of 16 blocks `CBlockLocator::Set` follows the links to the parents, from then
on the best chain.
-/

namespace Stealth

variable {fuel j nHeight : Nat}

/-- The blocks in memory. Every block but the genesis block has a parent one below it. -/
structure BlockTree (Index : Type) where
  hash : Index → Uint256
  pprev : Index → Option Index
  nHeight : Index → Nat
  genesis : Index
  hash_inj : ∀ a b, hash a = hash b → a = b
  nHeight_genesis : nHeight genesis = 0
  eq_genesis : ∀ b, pprev b = none → b = genesis
  nHeight_pprev : ∀ b p, pprev b = some p → nHeight b = nHeight p + 1

namespace BlockTree

variable {Index : Type} (tree : BlockTree Index)

def parent (b : Index) : Index := (tree.pprev b).getD b

def ancestor (n : Nat) (b : Index) : Index := tree.parent^[n] b

def mapBlockLookup (best : Index) (nHeight : Nat) : Option Index :=
  if nHeight ≤ tree.nHeight best then some (tree.ancestor (tree.nHeight best - nHeight) best) else none

def stepBack : Nat → Option Index → Option Index
  | 0, pmemIndex => pmemIndex
  | n + 1, pmemIndex => stepBack n (pmemIndex.bind tree.pprev)

/-- The next block of the list; the exception for a height without a block is `none`. -/
def next (best pmemIndex : Index) (nHeight nStep : Nat) : Option (Option Index) :=
  if nStep < 21 then some (tree.stepBack nStep (some pmemIndex))
  else (tree.mapBlockLookup best nHeight).map some

def setLoop (best : Index) : Nat → Option Index → Nat → Nat → List Uint256 → Option (List Uint256)
  | 0, _, _, _, _ => none
  | _ + 1, none, _, _, vHave => some vHave
  | fuel + 1, some pmemIndex, nHeight, nStep, vHave =>
    let vHave := vHave ++ [tree.hash pmemIndex]
    let nHeight := nHeight - nStep
    if nHeight < 1 then some vHave
    else (tree.next best pmemIndex nHeight nStep).bind fun pmemIndex =>
      setLoop best fuel pmemIndex nHeight (if vHave.length > 10 then nStep * 2 else nStep) vHave

def set (best b : Index) : Option (List Uint256) :=
  if (tree.pprev b).isNone then some [tree.hash tree.genesis]
  else (tree.setLoop best (tree.nHeight b + 1) (some b) (tree.nHeight b) 1 []).map (· ++ [tree.hash tree.genesis])

/-- The distance of an entry from the block: the steps double after the first ones. -/
def distance : Nat → Nat
  | 0 => 0
  | j + 1 => distance j + 2 ^ (j - 10)

/-- The list of a block: the ancestors at these distances above the genesis block, and then the genesis block. -/
def IsLocator (b : Index) (vHave : List Uint256) : Prop :=
  ∃ n, (∀ j < n, distance j < tree.nHeight b) ∧ tree.nHeight b ≤ distance n ∧
    vHave = (List.range n).map (fun j => tree.hash (tree.ancestor (distance j) b)) ++ [tree.hash tree.genesis]

variable {tree} {best b : Index} {n m : Nat}

theorem distance_strictMono : StrictMono distance :=
  strictMono_nat_of_lt_succ fun j => Nat.lt_add_of_pos_right (Nat.two_pow_pos (j - 10))

theorem ancestor_add : tree.ancestor (n + m) b = tree.ancestor n (tree.ancestor m b) :=
  Function.iterate_add_apply ..

theorem nHeight_ancestor (h : n ≤ tree.nHeight b) : tree.nHeight (tree.ancestor n b) = tree.nHeight b - n := by
  induction n generalizing b with
  | zero => rfl
  | succ n ih =>
    have hstep : tree.nHeight (tree.parent b) = tree.nHeight b - 1 := by
      rw [parent]
      cases hp : tree.pprev b with
      | none =>
        rw [tree.eq_genesis b hp, tree.nHeight_genesis] at h
        omega
      | some p => rw [tree.nHeight_pprev b p hp, Option.getD_some, Nat.add_sub_cancel]
    rw [ancestor, Function.iterate_succ_apply]
    refine (ih (by omega)).trans ?_
    omega

theorem pprev_of_pos (h : 0 < tree.nHeight b) : tree.pprev b = some (tree.parent b) := by
  cases hp : tree.pprev b with
  | none =>
    rw [tree.eq_genesis b hp, tree.nHeight_genesis] at h
    omega
  | some p => rw [parent, hp, Option.getD_some]

theorem stepBack_eq (h : n ≤ tree.nHeight b) : tree.stepBack n (some b) = some (tree.ancestor n b) := by
  induction n generalizing b with
  | zero => rfl
  | succ n ih =>
    have hparent := nHeight_ancestor (n := 1) (Nat.le_trans (Nat.le_add_left 1 n) h)
    rw [stepBack, Option.bind_some, pprev_of_pos (Nat.lt_of_lt_of_le n.succ_pos h)]
    exact ih (hparent ▸ Nat.le_sub_of_add_le h)

/-- Below a block of the best chain, the table has the ancestors of this block. -/
theorem mapBlockLookup_ancestor (hn : n ≤ tree.nHeight b)
    (h : tree.mapBlockLookup best (tree.nHeight b - n) = some (tree.ancestor n b)) (hm : n ≤ m) (hb : m ≤ tree.nHeight b) :
    tree.mapBlockLookup best (tree.nHeight b - m) = some (tree.ancestor m b) := by
  rw [mapBlockLookup] at h ⊢
  split at h
  · next hle =>
    have hsplit : tree.nHeight best - (tree.nHeight b - m) = (m - n) + (tree.nHeight best - (tree.nHeight b - n)) := by
      omega
    rw [if_pos (by omega), hsplit, ancestor_add, Option.some.inj h, ← ancestor_add, Nat.sub_add_cancel hm]
  · cases h

def entries (tree : BlockTree Index) (b : Index) (j : Nat) : List Uint256 :=
  (List.range j).map fun i => tree.hash (tree.ancestor (distance i) b)

theorem entries_succ (j : Nat) :
    tree.entries b (j + 1) = tree.entries b j ++ [tree.hash (tree.ancestor (distance j) b)] := by
  rw [entries, List.range_succ, List.map_append]
  rfl

theorem length_entries (j : Nat) : (tree.entries b j).length = j := by
  rw [entries, List.length_map, List.length_range]

def loopAt (tree : BlockTree Index) (best b : Index) (fuel j : Nat) : Option (List Uint256) :=
  tree.setLoop best fuel (some (tree.ancestor (distance j) b)) (tree.nHeight b - distance j) (2 ^ (j - 10))
    (tree.entries b j)

theorem nStep_succ (j : Nat) :
    (if (tree.entries b (j + 1)).length > 10 then 2 ^ (j - 10) * 2 else 2 ^ (j - 10)) = 2 ^ (j + 1 - 10) := by
  rw [length_entries]
  split
  · next h => rw [← Nat.pow_succ, Nat.sub_add_comm (by omega)]
  · next h => rw [Nat.sub_eq_zero_of_le (by omega), Nat.sub_eq_zero_of_le (by omega)]

theorem loopAt_last (h : tree.nHeight b ≤ distance (j + 1)) :
    loopAt tree best b (fuel + 1) j = some (tree.entries b (j + 1)) := by
  rw [distance] at h
  rw [loopAt, setLoop, if_pos (by omega), entries_succ]

theorem loopAt_more (h : distance (j + 1) < tree.nHeight b) : loopAt tree best b (fuel + 1) j =
      (tree.next best (tree.ancestor (distance j) b) (tree.nHeight b - distance (j + 1)) (2 ^ (j - 10))).bind fun p =>
        tree.setLoop best fuel p (tree.nHeight b - distance (j + 1)) (2 ^ (j + 1 - 10)) (tree.entries b (j + 1)) := by
  have hheight : tree.nHeight b - distance j - 2 ^ (j - 10) = tree.nHeight b - distance (j + 1) := Nat.sub_sub ..
  rw [loopAt, setLoop, if_neg (by omega), ← entries_succ, nStep_succ, hheight]

theorem next_small (hj : j < 15) (h : distance (j + 1) < tree.nHeight b) :
    tree.next best (tree.ancestor (distance j) b) nHeight (2 ^ (j - 10)) =
      some (some (tree.ancestor (distance (j + 1)) b)) := by
  have hstep : 2 ^ (j - 10) < 21 :=
    Nat.lt_of_le_of_lt (Nat.pow_le_pow_right Nat.two_pos (by omega : j - 10 ≤ 4)) (by decide)
  rw [distance] at h
  have hle : distance j ≤ tree.nHeight b := (Nat.le_add_right ..).trans h.le
  have hback : 2 ^ (j - 10) ≤ tree.nHeight (tree.ancestor (distance j) b) := by
    rw [nHeight_ancestor hle]
    omega
  rw [next, if_pos hstep, stepBack_eq hback, ← ancestor_add, Nat.add_comm]
  rfl

theorem next_large {b' : Index} (hj : 15 ≤ j) :
    tree.next best b' nHeight (2 ^ (j - 10)) = (tree.mapBlockLookup best nHeight).map some := by
  have hstep : ¬ 2 ^ (j - 10) < 21 :=
    not_lt.2 (Nat.le_trans (by decide : 21 ≤ 2 ^ 5) (Nat.pow_le_pow_right Nat.two_pos (by omega)))
  rw [next, if_neg hstep]

theorem loopAt_small (hj : j < 15) (h : distance (j + 1) < tree.nHeight b) :
    loopAt tree best b (fuel + 1) j = loopAt tree best b fuel (j + 1) := by
  rw [loopAt_more h, next_small hj h, Option.bind_some, loopAt]

/-- The table agrees with the ancestors of the block where the loop uses it first. -/
def OnBestChain (tree : BlockTree Index) (best b : Index) : Prop :=
  tree.nHeight b ≤ 73 ∨ tree.mapBlockLookup best (tree.nHeight b - 73) = some (tree.ancestor 73 b)

theorem loopAt_succ (hbest : OnBestChain tree best b) (h : distance (j + 1) < tree.nHeight b) :
    loopAt tree best b (fuel + 1) j = loopAt tree best b fuel (j + 1) := by
  by_cases hj : j < 15
  · exact loopAt_small hj h
  · have hfar : 73 ≤ distance (j + 1) := distance_strictMono.monotone (by omega : 16 ≤ j + 1)
    have htable := mapBlockLookup_ancestor (by omega) (hbest.resolve_left (by omega)) hfar h.le
    rw [loopAt_more h, next_large (not_lt.1 hj), htable, Option.map_some, Option.bind_some, loopAt]

theorem loopAt_eq (hbest : OnBestChain tree best b) (hj : distance j < tree.nHeight b)
    (hfuel : tree.nHeight b - distance j ≤ fuel) :
    ∃ n, (∀ i < n, distance i < tree.nHeight b) ∧ tree.nHeight b ≤ distance n ∧
      loopAt tree best b fuel j = some (tree.entries b n) := by
  induction fuel generalizing j with
  | zero => omega
  | succ fuel ih =>
    by_cases hlast : tree.nHeight b ≤ distance (j + 1)
    · refine ⟨j + 1, fun i hi => ?_, hlast, loopAt_last hlast⟩
      exact Nat.lt_of_le_of_lt (distance_strictMono.monotone (Nat.le_of_lt_succ hi)) hj
    · rw [loopAt_succ hbest (not_le.1 hlast)]
      have hmore : distance j < distance (j + 1) := distance_strictMono j.lt_succ_self
      exact ih (not_le.1 hlast) (by omega)

theorem loopAt_zero_small (h : 73 < tree.nHeight b) :
    ∀ j ≤ 15, loopAt tree best b (fuel + 15) 0 = loopAt tree best b (fuel + (15 - j)) j
  | 0, _ => rfl
  | j + 1, hj => by
    have hnext : distance (j + 1) < tree.nHeight b :=
      Nat.lt_of_le_of_lt (distance_strictMono.monotone (by omega : j + 1 ≤ 16)) h
    rw [loopAt_zero_small h j (by omega), show fuel + (15 - j) = fuel + (15 - (j + 1)) + 1 by omega,
      loopAt_small (by omega) hnext]

/-- Entries are only added behind those that are there. -/
theorem isPrefix_setLoop {p : Option Index} {nStep : Nat} {vHave result : List Uint256}
    (h : tree.setLoop best fuel p nHeight nStep vHave = some result) :
    vHave ++ p.toList.map tree.hash <+: result := by
  induction fuel generalizing p nHeight nStep vHave with
  | zero => cases h
  | succ fuel ih =>
    cases p with
    | none =>
      obtain rfl := Option.some.inj h
      exact (List.append_nil vHave).symm ▸ List.prefix_rfl
    | some b =>
      rw [setLoop] at h
      split at h
      · exact Option.some.inj h ▸ List.prefix_rfl
      · obtain ⟨p, -, h⟩ := Option.bind_eq_some_iff.1 h
        exact (List.prefix_append ..).trans (ih h)

theorem onBestChain_of_loop {n : Nat} (fuel : Nat) (hfar : 73 < tree.nHeight b) (hn : tree.nHeight b ≤ distance n)
    (h : loopAt tree best b (fuel + 17) 0 = some (tree.entries b n)) : OnBestChain tree best b := by
  have hlong : 16 < n := by
    by_contra hshort
    have hdist : distance n ≤ 73 := distance_strictMono.monotone (not_lt.1 hshort)
    omega
  rw [show fuel + 17 = fuel + 2 + 15 from rfl, loopAt_zero_small hfar 15 le_rfl, Nat.sub_self,
    loopAt_more (j := 15) hfar, next_large le_rfl] at h
  obtain ⟨p, hnext, hrest⟩ := Option.bind_eq_some_iff.1 h
  obtain ⟨b', htable, rfl⟩ := Option.map_eq_some_iff.1 hnext
  -- the entry after the first 16 is the block from the table
  obtain ⟨rest, hprefix⟩ := isPrefix_setLoop hrest
  have hentry := congrArg (·[16]?) hprefix
  simp only [Option.toList_some, List.map_cons, List.append_assoc, length_entries, le_rfl, List.getElem?_append_right,
    Nat.sub_self, List.cons_append, List.getElem?_cons_zero] at hentry
  rw [entries, List.getElem?_map, List.getElem?_range hlong] at hentry
  rw [tree.hash_inj _ _ (Option.some.inj hentry)] at htable
  exact .inr htable

/-- The list is the locator of the block exactly if the block is not higher than 73 or its ancestor at this distance
is in the best chain. -/
theorem set_isLocator_iff (tree : BlockTree Index) (best b : Index) :
    (∃ vHave, tree.set best b = some vHave ∧ tree.IsLocator b vHave) ↔ OnBestChain tree best b := by
  by_cases hgenesis : tree.pprev b = none
  · have hzero : tree.nHeight b = 0 := by rw [tree.eq_genesis b hgenesis, tree.nHeight_genesis]
    rw [set, hgenesis, Option.isNone_none, if_pos rfl]
    exact iff_of_true ⟨_, rfl, 0, fun _ h => absurd h (Nat.not_lt_zero _), hzero.le, rfl⟩ (.inl (by omega))
  · have hsome : (tree.pprev b).isNone = false := Option.isNone_eq_false_iff.2 (Option.isSome_iff_ne_none.2 hgenesis)
    have hpos : 0 < tree.nHeight b := by
      obtain ⟨p, hp⟩ := Option.ne_none_iff_exists'.1 hgenesis
      rw [tree.nHeight_pprev b p hp]
      exact Nat.succ_pos _
    have hset : tree.set best b =
        (loopAt tree best b (tree.nHeight b + 1) 0).map (· ++ [tree.hash tree.genesis]) := by
      rw [set, hsome, loopAt]
      rfl
    rw [hset]
    constructor
    · rintro ⟨vHave, heq, n, -, hn, rfl⟩
      obtain ⟨result, hresult, happend⟩ := Option.map_eq_some_iff.1 heq
      rw [List.append_cancel_right happend] at hresult
      by_cases hfar : 73 < tree.nHeight b
      · refine onBestChain_of_loop (tree.nHeight b - 16) hfar hn ?_
        rwa [show tree.nHeight b - 16 + 17 = tree.nHeight b + 1 by omega]
      · exact .inl (not_lt.1 hfar)
    · intro hbest
      have hfuel : tree.nHeight b - distance 0 ≤ tree.nHeight b + 1 := by omega
      obtain ⟨n, hbelow, hn, heq⟩ := loopAt_eq hbest (j := 0) hpos hfuel
      exact ⟨_, by rw [heq]; rfl, n, hbelow, hn, rfl⟩

/-- The genesis block 0, the block 1 on it, and a branch of the blocks 2 to 75 on the genesis block. -/
def forked : BlockTree (Fin 76) where
  hash i := BitVec.ofNat 256 i
  pprev i := if i = 0 then none else if i = 2 then some 0 else some (i - 1)
  nHeight i := if i < 2 then i else i - 1
  genesis := 0
  hash_inj a b h := by
    have hnat := congrArg BitVec.toNat h
    rw [BitVec.toNat_ofNat, BitVec.toNat_ofNat, Nat.mod_eq_of_lt (a.isLt.trans (by decide)),
      Nat.mod_eq_of_lt (b.isLt.trans (by decide))] at hnat
    exact Fin.ext hnat
  nHeight_genesis := rfl
  eq_genesis := by decide
  nHeight_pprev := by
    intro b p h
    split_ifs at h <;> grind

/-- The list of the block 75 has the block 1 of the other branch, not its own ancestor 2. -/
theorem set_otherBranch :
    forked.set 1 75 = some [75, 74, 73, 72, 71, 70, 69, 68, 67, 66, 65, 64, 62, 58, 50, 34, 1, 0] ∧
      forked.hash (forked.ancestor 73 75) = 2 := by
  decide +kernel

end BlockTree

end Stealth

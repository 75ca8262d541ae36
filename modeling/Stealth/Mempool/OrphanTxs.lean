import Mathlib.Data.List.Induction
import Stealth.Chain.Transaction

/-! The orphan transactions, kept as messages by id and once more for each parent. -/

namespace Stealth

/-- Reading a transaction from a message, which throws if it cannot be read, and its id. -/
structure OrphanEnv where
  readTx : Bytes → Option CTransaction
  getHash : CTransaction → Uint256

structure OrphanTxs where
  mapOrphanTransactions : Map Uint256 Bytes := ∅
  mapOrphanTransactionsByPrev : Map Uint256 (Map Uint256 Bytes) := ∅

def CTransaction.parents (tx : CTransaction) : List Uint256 := tx.vin.map fun txin => txin.prevout.hash

namespace OrphanTxs

def addParent (hash : Uint256) (vMsg : Bytes) (byPrev : Map Uint256 (Map Uint256 Bytes)) (parent : Uint256) :
    Map Uint256 (Map Uint256 Bytes) :=
  byPrev.insert parent ((byPrev.getD parent ∅).insertIfNew hash vMsg)

/-- One round of the loop of `EraseOrphanTx`. A missing bucket is created before it is found to be empty. -/
def eraseParent (hash : Uint256) (byPrev : Map Uint256 (Map Uint256 Bytes)) (parent : Uint256) :
    Map Uint256 (Map Uint256 Bytes) :=
  let bucket := (byPrev.getD parent ∅).erase hash
  let byPrev := byPrev.insert parent bucket
  if bucket.isEmpty then byPrev.erase parent else byPrev

variable (E : OrphanEnv)

def addOrphanTx (vMsg : Bytes) (s : OrphanTxs) : Option (Bool × OrphanTxs) :=
  (E.readTx vMsg).map fun tx =>
    let hash := E.getHash tx
    if s.mapOrphanTransactions.contains hash then (false, s)
    else if 5000 < vMsg.length then (false, s)
    else (true, ⟨s.mapOrphanTransactions.insert hash vMsg,
      tx.parents.foldl (addParent hash vMsg) s.mapOrphanTransactionsByPrev⟩)

def eraseOrphanTx (hash : Uint256) (s : OrphanTxs) : Option OrphanTxs :=
  match s.mapOrphanTransactions[hash]? with
  | none => some s
  | some vMsg => (E.readTx vMsg).map fun tx =>
      ⟨s.mapOrphanTransactions.erase hash, tx.parents.foldl (eraseParent hash) s.mapOrphanTransactionsByPrev⟩

def victim (randomhash : Uint256) (s : OrphanTxs) : Option Uint256 :=
  (s.mapOrphanTransactions.keys.find? fun hash => decide (randomhash ≤ hash)).or s.mapOrphanTransactions.keys.head?

/-- The loop of `LimitOrphanTxSize`; the random ids are numbered by the evictions. -/
def evict (rand : Nat → Uint256) (nMaxOrphans : Nat) : Nat → Nat → OrphanTxs → Option (Nat × OrphanTxs)
  | fuel, nEvicted, s =>
    if s.mapOrphanTransactions.size ≤ nMaxOrphans then some (nEvicted, s)
    else
      match fuel with
      | 0 => none
      | fuel + 1 => do
        let hash ← victim (rand nEvicted) s
        let s ← eraseOrphanTx E hash s
        evict rand nMaxOrphans fuel (nEvicted + 1) s

def limitOrphanTxSize (rand : Nat → Uint256) (nMaxOrphans : Nat) (s : OrphanTxs) : Option (Nat × OrphanTxs) :=
  evict E rand nMaxOrphans s.mapOrphanTransactions.size 0 s

inductive Call where
  | add (vMsg : Bytes)
  | erase (hash : Uint256)
  | limit (nMaxOrphans : Nat) (rand : Nat → Uint256)

def call (s : OrphanTxs) : Call → Option OrphanTxs
  | .add vMsg => some (((addOrphanTx E vMsg s).map Prod.snd).getD s)
  | .erase hash => eraseOrphanTx E hash s
  | .limit nMaxOrphans rand => (limitOrphanTxSize E rand nMaxOrphans s).map Prod.snd

def entry (byPrev : Map Uint256 (Map Uint256 Bytes)) (parent hash : Uint256) : Option Bytes :=
  byPrev[parent]?.bind fun bucket => bucket[hash]?

/-- The index has an entry for each pair of a stored orphan and a parent of it, no other, and no empty bucket. -/
structure Exact (s : OrphanTxs) : Prop where
  stored : ∀ hash vMsg, s.mapOrphanTransactions[hash]? = some vMsg →
    ∃ tx, E.readTx vMsg = some tx ∧ E.getHash tx = hash
  indexed : ∀ parent hash vMsg, entry s.mapOrphanTransactionsByPrev parent hash = some vMsg ↔
    s.mapOrphanTransactions[hash]? = some vMsg ∧ ∃ tx, E.readTx vMsg = some tx ∧ parent ∈ tx.parents
  noEmpty : ∀ parent : Uint256, s.mapOrphanTransactionsByPrev[parent]? ≠ some ∅

variable {E} {byPrev : Map Uint256 (Map Uint256 Bytes)} {hash : Uint256} {vMsg : Bytes} {s : OrphanTxs}

theorem getElem?_getD (parent hash : Uint256) : (byPrev.getD parent ∅)[hash]? = entry byPrev parent hash := by
  rw [getD_eq_getD_getElem?, entry]
  cases byPrev[parent]? with
  | none => exact getElem?_empty
  | some bucket => rfl

theorem entry_addParent (parent parent' hash' : Uint256) : entry (addParent hash vMsg byPrev parent) parent' hash' =
    if parent' = parent ∧ hash' = hash then (entry byPrev parent hash).or (some vMsg)
    else entry byPrev parent' hash' := by
  rw [entry, addParent, getElem?_insert]
  by_cases hp : parent' = parent
  · subst hp
    rw [if_pos Std.ReflCmp.compare_self, Option.bind_some, Std.ExtTreeMap.getElem?_insertIfNew, getElem?_getD]
    by_cases hh : hash' = hash
    · subst hh
      simp only [← Std.ExtTreeMap.isSome_getElem?_iff_mem, getElem?_getD]
      cases entry byPrev parent' hash' <;> simp
    · simp [hh, Ne.symm hh]
  · simp [hp, Ne.symm hp, entry]

/-- Doing something to one entry of every parent, if doing it twice is doing it once. -/
theorem entry_foldl {f : Map Uint256 (Map Uint256 Bytes) → Uint256 → Map Uint256 (Map Uint256 Bytes)}
    {g : Option Bytes → Option Bytes} (hg : ∀ x, g (g x) = g x)
    (hf : ∀ byPrev parent parent' hash', entry (f byPrev parent) parent' hash' =
      if parent' = parent ∧ hash' = hash then g (entry byPrev parent hash) else entry byPrev parent' hash')
    (parents : List Uint256) (byPrev : Map Uint256 (Map Uint256 Bytes)) (parent hash' : Uint256) :
    entry (parents.foldl f byPrev) parent hash' =
      if parent ∈ parents ∧ hash' = hash then g (entry byPrev parent hash) else entry byPrev parent hash' := by
  induction parents generalizing byPrev with
  | nil => simp
  | cons p parents ih =>
    rw [List.foldl_cons, ih]
    simp only [hf, List.mem_cons]
    by_cases hp : parent = p <;> by_cases hh : hash' = hash <;> simp [hp, hh, hg]

theorem noEmpty_addParent (h : ∀ parent : Uint256, byPrev[parent]? ≠ some ∅) (p parent : Uint256) :
    (addParent hash vMsg byPrev p)[parent]? ≠ some ∅ := by
  rw [addParent, getElem?_insert]
  split
  · exact fun heq => Std.ExtTreeMap.insertIfNew_ne_empty (Option.some.inj heq)
  · exact h parent

theorem getElem?_eraseParent (parent parent' : Uint256) : (eraseParent hash byPrev parent)[parent']? =
    if parent' = parent then
      if (byPrev.getD parent ∅).erase hash = ∅ then none else some ((byPrev.getD parent ∅).erase hash)
    else byPrev[parent']? := by
  simp only [eraseParent, Std.ExtTreeMap.isEmpty_iff]
  by_cases hp : parent' = parent
  · subst hp
    split <;> simp
  · split <;> simp [getElem?_erase, getElem?_insert, Ne.symm hp]

theorem entry_eraseParent (parent parent' hash' : Uint256) : entry (eraseParent hash byPrev parent) parent' hash' =
    if parent' = parent ∧ hash' = hash then none else entry byPrev parent' hash' := by
  rw [entry, getElem?_eraseParent]
  by_cases hp : parent' = parent
  · subst hp
    have herase : ((byPrev.getD parent' ∅).erase hash)[hash']? =
        if parent' = parent' ∧ hash' = hash then none else entry byPrev parent' hash' := by
      simp only [getElem?_erase, Std.compare_eq_iff_eq, getElem?_getD, true_and, eq_comm (a := hash)]
    rw [if_pos rfl, ← herase]
    split
    · next hempty => rw [hempty, getElem?_empty]; rfl
    · rfl
  · rw [if_neg hp, if_neg fun h => hp h.1]
    rfl

theorem noEmpty_eraseParent (h : ∀ parent : Uint256, byPrev[parent]? ≠ some ∅) (p parent : Uint256) :
    (eraseParent hash byPrev p)[parent]? ≠ some ∅ := by
  rw [getElem?_eraseParent]
  split
  · split
    · nofun
    · next hne => exact fun heq => hne (Option.some.inj heq)
  · exact h parent

theorem exact_empty : Exact E {} where
  stored hash vMsg h := by simp at h
  indexed parent hash vMsg := by simp [entry]
  noEmpty parent := by simp

theorem Exact.addOrphanTx (h : Exact E s) (vMsg : Bytes) :
    Exact E (((addOrphanTx E vMsg s).map Prod.snd).getD s) := by
  rw [OrphanTxs.addOrphanTx]
  cases hread : E.readTx vMsg with
  | none => exact h
  | some tx =>
    simp only [Option.map_some, Option.getD_some]
    split
    · exact h
    · next hnew =>
      split
      · exact h
      · have hnone : s.mapOrphanTransactions[E.getHash tx]? = none :=
          getElem?_eq_none (by rwa [contains_iff_mem] at hnew)
        have hfree : ∀ parent, entry s.mapOrphanTransactionsByPrev parent (E.getHash tx) = none := by
          intro parent
          cases hentry : entry s.mapOrphanTransactionsByPrev parent (E.getHash tx) with
          | none => rfl
          | some vMsg' =>
            have hstored := ((h.indexed ..).1 hentry).1
            rw [hnone] at hstored
            cases hstored
        refine ⟨?_, ?_, List.foldlRecOn (motive := fun m => ∀ parent : Uint256, m[parent]? ≠ some ∅) _ _ h.noEmpty
          fun _ h p _ => noEmpty_addParent h p⟩
        · intro hash' vMsg' hget
          simp only [getElem?_insert, Std.compare_eq_iff_eq] at hget
          split at hget
          · next heq =>
            cases hget
            exact ⟨tx, hread, heq⟩
          · exact h.stored _ _ hget
        · intro parent hash' vMsg'
          have hentry := entry_foldl (f := addParent (E.getHash tx) vMsg) (g := (·.or (some vMsg)))
            (fun x => by cases x <;> rfl) fun _ => entry_addParent
          simp only [hentry, hfree, getElem?_insert, Std.compare_eq_iff_eq, Option.none_or]
          by_cases hh : E.getHash tx = hash'
          · subst hh
            simp only [and_true, if_true, hfree]
            constructor
            · intro heq
              split at heq
              · next hmem =>
                cases heq
                exact ⟨rfl, tx, hread, hmem⟩
              · cases heq
            · rintro ⟨heq, tx', hread', hmem⟩
              cases heq
              cases hread.symm.trans hread'
              exact if_pos hmem
          · rw [if_neg hh, if_neg fun hmem => hh hmem.2.symm]
            exact h.indexed ..

theorem Exact.eraseOrphanTx (h : Exact E s) (hash : Uint256) : ∃ s', eraseOrphanTx E hash s = some s' ∧ Exact E s' ∧
    s'.mapOrphanTransactions = s.mapOrphanTransactions.erase hash := by
  rw [OrphanTxs.eraseOrphanTx]
  split
  · next hnone =>
    refine ⟨s, rfl, h, (ext_getElem? fun hash' => ?_)⟩
    simp only [getElem?_erase, Std.compare_eq_iff_eq]
    split
    · next heq => rw [← heq, hnone]
    · rfl
  · next vMsg hget =>
    obtain ⟨tx, hread, hhash⟩ := h.stored _ _ hget
    rw [hread, Option.map_some]
    refine ⟨_, rfl, ⟨?_, ?_, List.foldlRecOn (motive := fun m => ∀ parent : Uint256, m[parent]? ≠ some ∅) _ _
      h.noEmpty fun _ h p _ => noEmpty_eraseParent h p⟩, rfl⟩
    · intro hash' vMsg' hget'
      rw [getElem?_erase] at hget'
      split at hget'
      · cases hget'
      · exact h.stored _ _ hget'
    · intro parent hash' vMsg'
      have hentry := entry_foldl (f := eraseParent hash) (g := fun _ => none) (fun _ => rfl) fun _ => entry_eraseParent
      simp only [hentry, getElem?_erase, Std.compare_eq_iff_eq]
      by_cases hh : hash = hash'
      · subst hh
        simp only [and_true, if_true]
        refine ⟨fun heq => ?_, fun hnone => by cases hnone.1⟩
        -- an entry of the erased orphan is one of its parents
        split at heq
        · cases heq
        · next hmem =>
          obtain ⟨hget', tx', hread', hmem'⟩ := (h.indexed ..).1 heq
          cases hget.symm.trans hget'
          cases hread.symm.trans hread'
          exact absurd hmem' hmem
      · rw [if_neg hh, if_neg fun hmem => hh hmem.2.symm]
        exact h.indexed ..

theorem victim_mem {randomhash : Uint256} (h : 0 < s.mapOrphanTransactions.size) :
    ∃ hash, victim randomhash s = some hash ∧ hash ∈ s.mapOrphanTransactions := by
  rw [← Std.ExtTreeMap.length_keys] at h
  obtain ⟨first, rest, hkeys⟩ := List.exists_cons_of_length_pos h
  rw [victim]
  cases hfind : s.mapOrphanTransactions.keys.find? fun hash => decide (randomhash ≤ hash) with
  | some hash => exact ⟨hash, rfl, Std.ExtTreeMap.mem_keys.1 (List.mem_of_find?_eq_some hfind)⟩
  | none =>
    rw [hkeys]
    exact ⟨first, rfl, Std.ExtTreeMap.mem_keys.1 (hkeys ▸ List.mem_cons_self)⟩

/-- With fuel for every orphan the eviction ends, and leaves no more than the limit. -/
theorem Exact.evict (rand : Nat → Uint256) (nMaxOrphans : Nat) (fuel nEvicted : Nat) {s : OrphanTxs}
    (h : Exact E s) (hfuel : s.mapOrphanTransactions.size ≤ fuel) :
    ∃ n s', evict E rand nMaxOrphans fuel nEvicted s = some (n, s') ∧ Exact E s' ∧
      s'.mapOrphanTransactions.size ≤ nMaxOrphans := by
  induction fuel generalizing nEvicted s with
  | zero =>
    rw [OrphanTxs.evict, if_pos (hfuel.trans (Nat.zero_le _))]
    exact ⟨_, s, rfl, h, hfuel.trans (Nat.zero_le _)⟩
  | succ fuel ih =>
    rw [OrphanTxs.evict]
    split
    · next hle => exact ⟨_, s, rfl, h, hle⟩
    · next hgt =>
      obtain ⟨hash, hvictim, hmem⟩ := victim_mem (s := s) (Nat.lt_of_le_of_lt (Nat.zero_le _) (not_le.1 hgt))
      obtain ⟨s', hs', hexact, hmap⟩ := h.eraseOrphanTx hash
      have hsize : s'.mapOrphanTransactions.size ≤ fuel := by
        rw [hmap, Std.ExtTreeMap.size_erase, if_pos (contains_iff_mem.2 hmem)]
        omega
      obtain ⟨n, s'', hrun, hend⟩ := ih (nEvicted + 1) hexact hsize
      exact ⟨n, s'', by rw [hvictim, Option.bind_eq_bind, Option.bind_some, hs']; exact hrun, hend⟩

theorem Exact.call (h : Exact E s) (c : Call) : ∃ s', call E s c = some s' ∧ Exact E s' ∧
    ∀ n rand, c = .limit n rand → s'.mapOrphanTransactions.size ≤ n := by
  cases c with
  | add vMsg => exact ⟨_, rfl, h.addOrphanTx vMsg, nofun⟩
  | erase hash =>
    obtain ⟨s', hs', hexact, -⟩ := h.eraseOrphanTx hash
    exact ⟨s', hs', hexact, nofun⟩
  | limit n rand =>
    obtain ⟨nEvicted, s', hs', hexact, hle⟩ := h.evict rand n _ 0 le_rfl
    refine ⟨s', by rw [OrphanTxs.call, limitOrphanTxSize, hs']; rfl, hexact, ?_⟩
    intro n' rand' heq
    cases heq
    exact hle

/-- Every sequence of calls runs to its end and leaves an exact index; a last call of `LimitOrphanTxSize` leaves at
most as many orphans as it says. -/
theorem calls_exact (E : OrphanEnv) (calls : List Call) : ∃ s, calls.foldlM (call E) {} = some s ∧ Exact E s ∧
    ∀ n rand, calls.getLast? = some (.limit n rand) → s.mapOrphanTransactions.size ≤ n := by
  induction calls using List.reverseRecOn with
  | nil => exact ⟨{}, rfl, exact_empty, nofun⟩
  | append_singleton calls c ih =>
    obtain ⟨s, hs, hexact, -⟩ := ih
    obtain ⟨s', hs', hexact', hlimit⟩ := hexact.call c
    refine ⟨s', ?_, hexact', fun n rand hlast => hlimit n rand ?_⟩
    · rw [List.foldlM_append, hs, Option.bind_eq_bind, Option.bind_some, List.foldlM_cons, hs']
      rfl
    · rw [List.getLast?_concat] at hlast
      exact Option.some.inj hlast

end OrphanTxs

end Stealth

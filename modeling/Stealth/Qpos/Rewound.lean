import Stealth.Qpos.Rewind

/-!
The registry that `RewindRegistry` returns, against the replay of the whole chain. They differ by owners of
characters that `SetNull` keeps.
-/

namespace Stealth.QPRegistry

/-- A stored snapshot with the hash of a block of the branch has the state of the replay through it. -/
def FaithfulSnapshots (env : QPEnv) (now : CBlockIndex → Int) (db : SnapshotDB) (target : Chain) : Prop :=
  ∀ (n : Int) (s : QPRegistry), db[n]? = some s → ∀ (pre : List CBlockIndex) (p : CBlockIndex)
    (below : Chain) (R : QPRegistry), target = pre ++ p :: below → s.hashBlock = p.hashBlock →
    replay env now (p :: below) = some R → SameData s R

section

variable {env : QPEnv} {now : CBlockIndex → Int} {inMainChain : CBlockIndex → Bool}
  {nSnapshotType : SnapshotType} {db : SnapshotDB} {r R : QPRegistry} {x : QPRegistry × SnapshotDB}
  {b : CBlockIndex} {rest target : Chain}

/-- A rewind that returns true replays the blocks above the block where its walk ends. -/
theorem rewindRegistry_ok (hlinked : Linked target) (hpur : getPurchaseStart env.fTestNet ≤ b.nHeight)
    (hok : rewindRegistry env now inMainChain (b :: rest) target nSnapshotType db r = .ok x) :
    ∃ r₁, findSnapshot env inMainChain db b.nHeight (b :: rest) b.nHeight false r = .ok r₁ ∧
      ∀ (pre : List CBlockIndex) (p : CBlockIndex) (below : Chain), target = pre ++ p :: below →
        pre ≠ [] → (∀ q ∈ pre, q.hashBlock ≠ r₁.hashBlock) →
        (∀ q ∈ pre, getPurchaseStart env.fTestNet ≤ q.nHeight) →
        (p.hashBlock = r₁.hashBlock ∨ p.nHeight < getPurchaseStart env.fTestNet) →
        (chainsAbove pre (p :: below)).reverse.foldlM (replayOn env now nSnapshotType) (r₁, db) =
          .ok x := by
  have hfork : ¬ getFork env.fTestNet b.nHeight < .purchase :=
    Fork.not_lt.2 ((purchase_le_getFork_iff _ _).2 hpur)
  cases target with
  | nil => cases hok
  | cons t tail =>
    rw [rewindRegistry, if_neg hfork] at hok
    split at hok
    · cases hok
    · cases hfind : findSnapshot env inMainChain db b.nHeight (b :: rest) b.nHeight false r with
      | error e =>
        rw [hfind] at hok
        cases hok
      | ok r₁ =>
        refine ⟨r₁, rfl, ?_⟩
        rintro (_ | ⟨t', pre⟩) p below htarget hne hhash hheight hp
        · exact absurd rfl hne
        · obtain ⟨rfl, rfl⟩ : t = t' ∧ tail = pre ++ p :: below := List.cons.inj htarget
          obtain ⟨-, hprehash⟩ := List.forall_mem_cons.1 hhash
          obtain ⟨-, hpreheight⟩ := List.forall_mem_cons.1 hheight
          have ht : t.nHeight - 1 = p.nHeight + pre.length := by
            have hhead := @Linked.head_eq (t :: pre) p below hlinked t rfl
            rw [List.length_cons] at hhead
            omega
          have hcollect := collectReplay_eq (@Linked.suffix [t] _ hlinked) hprehash hpreheight hp
          rw [hfind] at hok
          simp only [ht, hcollect, ne_eq, not_true_eq_false, if_false] at hok
          split at hok
          · cases hok
          · exact hok

theorem rewindRegistry_hit (hbranch : IsBranch env target) (hsuffix : b :: rest <:+ target)
    (hpur : getPurchaseStart env.fTestNet ≤ b.nHeight) (hsnaps : FaithfulSnapshots env now db target)
    (hR : replay env now target = some R)
    (hok : rewindRegistry env now inMainChain (b :: rest) target nSnapshotType db r = .ok x)
    (hhas : HasSnapshot db (snapshotBlocks env inMainChain (b :: rest) false)) : SameData x.1 R := by
  obtain ⟨up, hup⟩ := hsuffix
  have hlinked := hbranch.linked
  obtain ⟨r₁, hfind, hreplays⟩ := rewindRegistry_ok hlinked hpur hok
  have hrewind : Linked (b :: rest) := @Linked.suffix up _ (hup ▸ hlinked)
  obtain ⟨pre, p, below, s, hsplit, hpre, hp, hsnap, hsame⟩ :=
    (findSnapshot_spec hrewind (Int.le_refl _) hfind).hit hhas
  have htarget : target = (up ++ pre) ++ p :: below := by rw [← hup, hsplit, List.append_assoc]
  have hhash : r₁.hashBlock = p.hashBlock := (congrArg Serialized.hashBlock hsame).trans hsnap.2.2
  have hlower : ∀ q ∈ up ++ pre, p.nHeight < q.nHeight := Linked.lt_of_mem (htarget ▸ hlinked)
  -- hashes identify the blocks of the branch, so the walk does not end early
  have hfold := hreplays (up ++ pre) p below htarget (by simp [hpre])
    (fun q hq heq => by
      have hqp : q = p := hbranch.unique q (by rw [htarget]; exact List.mem_append_left _ hq) p
        (by rw [htarget]; simp) (heq.trans hhash)
      exact absurd (hlower q hq) (by rw [hqp]; omega))
    (fun q hq => by have := hlower q hq; omega) (.inl hhash.symm)
  obtain ⟨R₀, hR₀⟩ := exists_replay_of_append (htarget ▸ hR)
  have hs := hsnaps p.nHeight s hsnap.1 (up ++ pre) p below R₀ htarget hsnap.2.2 hR₀
  exact SameData.replayed hR₀ (hsame.trans hs) (htarget ▸ hR) hfold

/-- After a search that emptied the registry, the blocks from the first one with purchases on are
replayed. -/
theorem rewindRegistry_miss (hbranch : IsBranch env target) (hsuffix : b :: rest <:+ target)
    (hpur : getPurchaseStart env.fTestNet ≤ b.nHeight)
    (hok : rewindRegistry env now inMainChain (b :: rest) target nSnapshotType db r = .ok x)
    (hno : ¬ HasSnapshot db (snapshotBlocks env inMainChain (b :: rest) false)) :
    ∃ (q : QPRegistry) (pre : List CBlockIndex) (f p : CBlockIndex) (below : Chain),
      q.owners = ownersRead db r.owners (snapshotBlocks env inMainChain (b :: rest) false) ∧
      target = (pre ++ [f]) ++ p :: below ∧ f.nHeight = getPurchaseStart env.fTestNet ∧
      (chainsAbove (pre ++ [f]) (p :: below)).reverse.foldlM (replayOn env now nSnapshotType)
        (q.setNull env, db) = .ok x := by
  obtain ⟨up, hup⟩ := hsuffix
  have hlinked := hbranch.linked
  obtain ⟨r₁, hfind, hreplays⟩ := rewindRegistry_ok hlinked hpur hok
  have hrewind : Linked (b :: rest) := @Linked.suffix up _ (hup ▸ hlinked)
  obtain ⟨q, howners, rfl⟩ := (findSnapshot_spec hrewind (Int.le_refl _) hfind).miss hno
  have hpos : 0 < getPurchaseStart env.fTestNet := by cases env.fTestNet <;> decide
  obtain ⟨pre, p, below, hsplit, hp⟩ :=
    hrewind.exists_height (n := getPurchaseStart env.fTestNet - 1) (by omega) (by omega)
  have hpre : pre ≠ [] := by
    rintro rfl
    cases hsplit
    omega
  obtain ⟨pre, f, rfl⟩ := (List.eq_nil_or_concat pre).resolve_left hpre
  rw [List.concat_eq_append] at hsplit
  have htarget : target = ((up ++ pre) ++ [f]) ++ p :: below := by
    rw [← hup, hsplit, List.append_assoc up pre, List.append_assoc up]
  have hlower : ∀ q ∈ (up ++ pre) ++ [f], p.nHeight < q.nHeight := Linked.lt_of_mem (htarget ▸ hlinked)
  have hf : Linked ([f] ++ p :: below) := by
    rw [htarget, List.append_assoc] at hlinked
    exact hlinked.suffix
  refine ⟨q, up ++ pre, f, p, below, howners, htarget, ?_, ?_⟩
  · have hfp : f.nHeight = p.nHeight + 1 := hf.1
    omega
  · refine hreplays _ p below htarget (by simp) (fun q hq heq => ?_) (fun q hq => ?_) (.inr (by omega))
    · have hzero := hbranch.genesis q (by rw [htarget]; exact List.mem_append_left _ hq) heq
      have := hlower q hq
      omega
    · have := hlower q hq
      omega

end

theorem setNull_of_owners {r : QPRegistry} (env : QPEnv) (h : r.owners = (∅, ∅)) :
    r.setNull env = empty env := by
  rw [owners, Prod.mk.injEq] at h
  rw [setNull, h.1, h.2]
  rfl

theorem chainsAbove_append_singleton (f : CBlockIndex) (c : Chain) : ∀ pre : List CBlockIndex,
    chainsAbove (pre ++ [f]) c = chainsAbove pre (f :: c) ++ [f :: c]
  | [] => rfl
  | b :: pre => by
    rw [List.cons_append, chainsAbove, chainsAbove, chainsAbove_append_singleton f c pre,
      List.append_assoc, List.singleton_append, List.cons_append]

def otherBlock (n : Nat) : CBlockIndex :=
  { soloBlock n with hashBlock := BitVec.ofNat 256 (2 ^ 32 + 1 + n), vDeets := [] }

def otherChain : Chain := otherBlock 3657601 :: otherBlock 3657600 :: soloChain 3657599

def blockOfHash (hash : Uint256) : CBlockIndex :=
  if hash.toNat ≤ 2 ^ 32 then soloBlock (hash.toNat - 1) else otherBlock (hash.toNat - (2 ^ 32 + 1))

variable {i n : Nat} {s : QPRegistry}

theorem soloBlock_hash (h : i < 2 ^ 32) : (soloBlock i).hashBlock.toNat = i + 1 := by
  rw [soloBlock, BitVec.toNat_ofNat, Nat.mod_eq_of_lt (by omega)]

theorem otherBlock_hash (h : i < 2 ^ 32) : (otherBlock i).hashBlock.toNat = 2 ^ 32 + 1 + i := by
  rw [otherBlock, BitVec.toNat_ofNat, Nat.mod_eq_of_lt (by omega)]

theorem blockOfHash_soloBlock (h : i < 2 ^ 32) : blockOfHash (soloBlock i).hashBlock = soloBlock i := by
  rw [blockOfHash, soloBlock_hash h, if_pos (by omega), Nat.add_sub_cancel]

theorem blockOfHash_otherBlock (h : i < 2 ^ 32) :
    blockOfHash (otherBlock i).hashBlock = otherBlock i := by
  rw [blockOfHash, otherBlock_hash h, if_neg (by omega), Nat.add_sub_cancel_left]

theorem mem_soloChain {b : CBlockIndex} : ∀ {n : Nat}, b ∈ soloChain n → ∃ i ≤ n, b = soloBlock i
  | 0, h => ⟨0, Nat.le_refl 0, List.mem_singleton.1 h⟩
  | n + 1, h => by
    rcases List.mem_cons.1 h with rfl | hmem
    · exact ⟨n + 1, Nat.le_refl _, rfl⟩
    · obtain ⟨i, hi, hb⟩ := mem_soloChain hmem
      exact ⟨i, Nat.le_succ_of_le hi, hb⟩

theorem isBranch_of_blockOfHash {c : Chain} (hlinked : Linked c)
    (hhash : ∀ b ∈ c, blockOfHash b.hashBlock = b ∧ b.hashBlock.toNat < 2 ^ 33 + 1) : IsBranch mainEnv c where
  linked := hlinked
  unique b hb b' hb' heq := by rw [← (hhash b hb).1, heq, (hhash b' hb').1]
  genesis b hb heq := by
    have hlt := (hhash b hb).2
    rw [heq] at hlt
    exact absurd hlt (by decide)

theorem blockOfHash_of_mem_soloChain (hn : n < 2 ^ 32) :
    ∀ b ∈ soloChain n, blockOfHash b.hashBlock = b ∧ b.hashBlock.toNat < 2 ^ 33 + 1 := by
  intro b hb
  obtain ⟨i, hi, rfl⟩ := mem_soloChain hb
  exact ⟨blockOfHash_soloBlock (by omega), by rw [soloBlock_hash (by omega)]; omega⟩

theorem isBranch_soloChain (hn : n < 2 ^ 32) : IsBranch mainEnv (soloChain n) :=
  isBranch_of_blockOfHash (linked_soloChain n) (blockOfHash_of_mem_soloChain hn)

theorem isBranch_otherChain : IsBranch mainEnv otherChain := by
  refine isBranch_of_blockOfHash ?_ ?_
  · have hsolo := linked_soloChain 3657599
    obtain ⟨below, hbelow⟩ := soloChain_head 3657599
    rw [otherChain, hbelow]
    rw [hbelow] at hsolo
    exact ⟨rfl, rfl, hsolo⟩
  · refine List.forall_mem_cons.2 ⟨?_, List.forall_mem_cons.2 ⟨?_,
      blockOfHash_of_mem_soloChain (by decide)⟩⟩
    · exact ⟨blockOfHash_otherBlock (by decide), by rw [otherBlock_hash (by decide)]; decide⟩
    · exact ⟨blockOfHash_otherBlock (by decide), by rw [otherBlock_hash (by decide)]; decide⟩

theorem replayOn_idle {b p : CBlockIndex} (hp : p.nHeight + 1 < 3695100) (hb : b.nHeight < 3695100)
    (hops : b.vDeets = []) (now : CBlockIndex → Int) (below : Chain) (x : QPRegistry × SnapshotDB) :
    ∃ db, replayOn mainEnv now .noSnaps x (b :: p :: below) = .ok (x.1.setBlock b, db) := by
  have hupdate := updateOnNewBlock_idle hb hp hops (now b) x.2 x.1
  rcases hrun : x.1.updateOnNewBlock mainEnv (now b) .noSnaps false p b x.2 with ⟨db, r', v⟩
  rw [hrun] at hupdate
  cases hupdate
  exact ⟨db, by rw [replayOn, List.head?_cons, Option.getD_some, hrun]⟩

theorem replay_purchase_owners :
    ∃ s, replay mainEnv blockClock (soloChain 3657600) = some s ∧ s.nBlockHeight = 3657600 ∧
      s.hashBlock = (soloBlock 3657600).hashBlock ∧ s.mapNftOwners.size = 1 := by
  rw [replay_soloChain_bind blockClock (show 3657600 = 3657599 + 1 by decide),
    replay_fresh blockClock 3657599 (by decide), Option.bind_some]
  exact exists_of_mem (by decide +kernel)

/-- The search reads the snapshot of the abandoned branch, refuses it, and goes on to blocks before
purchases. -/
theorem findSnapshot_otherChain (hheight : s.nBlockHeight = 3657600)
    (hhash : s.hashBlock = (soloBlock 3657600).hashBlock) (r : QPRegistry) :
    findSnapshot mainEnv (fun _ => true) ((∅ : SnapshotDB).insert 3657600 s) 3657601 otherChain 3657601
      false r = .ok (s.setNull mainEnv) := by
  obtain ⟨below, hbelow⟩ := soloChain_head 3657599
  have hread : readSnapshot ((∅ : SnapshotDB).insert 3657600 s) 3657600 r =
      (r.unserialize s.serialize, true) := by
    rw [readSnapshot, getElem?_insert_self]
    simp only [Prod.mk.injEq, beq_iff_eq, true_and]
    exact hheight
  have hne : ((r.unserialize s.serialize).hashBlock == (otherBlock 3657600).hashBlock) = false := by
    rw [show (r.unserialize s.serialize).hashBlock = s.hashBlock from rfl, hhash]
    decide
  rw [otherChain, hbelow, findSnapshot, if_neg (by decide), if_pos (by decide), if_neg (by simp)]
  simp only [show (3657601 : Int) - 1 = 3657600 by decide, hread, hne, Bool.and_false,
    Bool.false_eq_true, if_false]
  rw [findSnapshot, if_pos (by decide)]
  rfl

theorem rewindRegistry_otherChain (hheight : s.nBlockHeight = 3657600)
    (hhash : s.hashBlock = (soloBlock 3657600).hashBlock) (r : QPRegistry) :
    ∃ db, rewindRegistry mainEnv blockClock (fun _ => true) otherChain otherChain .noSnaps
      ((∅ : SnapshotDB).insert 3657600 s) r =
        .ok (((s.setNull mainEnv).setBlock (otherBlock 3657600)).setBlock (otherBlock 3657601), db) := by
  have hfind := findSnapshot_otherChain hheight hhash r
  have hlinked := isBranch_otherChain.linked
  obtain ⟨below, hbelow⟩ := soloChain_head 3657599
  rw [otherChain, hbelow] at hfind hlinked ⊢
  have hcollect := @collectReplay_eq mainEnv mainEnv.hashGenesisBlock (soloBlock 3657599) below
    [otherBlock 3657600] hlinked.2 (by decide) (by decide) (.inr (by decide))
  obtain ⟨db₁, hdb₁⟩ := replayOn_idle (b := otherBlock 3657600) (p := soloBlock 3657599) (by decide)
    (by decide) rfl blockClock below (s.setNull mainEnv, (∅ : SnapshotDB).insert 3657600 s)
  obtain ⟨db₂, hdb₂⟩ := replayOn_idle (b := otherBlock 3657601) (p := otherBlock 3657600) (by decide)
    (by decide) rfl blockClock (soloBlock 3657599 :: below)
    ((s.setNull mainEnv).setBlock (otherBlock 3657600), db₁)
  refine ⟨db₂, ?_⟩
  rw [rewindRegistry, if_neg (by decide), if_neg (by simp)]
  simp only [show (otherBlock 3657601).nHeight = 3657601 from rfl, hfind]
  rw [if_neg (by simp), show (s.setNull mainEnv).hashBlock = mainEnv.hashGenesisBlock from rfl,
    show (3657601 : Int) - 1 = (soloBlock 3657599).nHeight + ([otherBlock 3657600] : List
      CBlockIndex).length from rfl, show otherBlock 3657600 :: soloBlock 3657599 :: below =
      [otherBlock 3657600] ++ soloBlock 3657599 :: below from rfl, hcollect]
  simp only [ne_eq, not_true_eq_false, if_false, chainsAbove, List.nil_append, List.reverse_cons,
    List.reverse_nil, List.cons_append, List.foldlM_cons, List.foldlM_nil, hdb₁, hdb₂, bind, Except.bind]
  rfl

theorem replay_otherChain : replay mainEnv blockClock otherChain =
    some (((fresh 3657599).setBlock (otherBlock 3657600)).setBlock (otherBlock 3657601)) := by
  have hbefore := replay_fresh blockClock 3657599 (by decide)
  obtain ⟨below, hbelow⟩ := soloChain_head 3657599
  rw [hbelow] at hbefore
  rw [otherChain, hbelow, replay, replay, hbefore, Option.bind_some,
    connectBlock_idle (by decide) (by decide) rfl, Option.bind_some,
    connectBlock_idle (by decide) (by decide) rfl]

end Stealth.QPRegistry

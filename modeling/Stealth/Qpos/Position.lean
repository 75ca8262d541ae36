import Stealth.Qpos.Owners

/-!
Operations and the position of the registry: enabling a staker again reads it, and so does a lookup of
characters before `XST_FORKPURCHASE3`.
-/

namespace Stealth.QPRegistry

def getPurchaseStart (fTestNet : Bool) : Int := if fTestNet then 4204 else 3657600

theorem purchase_le_getFork_iff (fTestNet : Bool) (n : Int) :
    Fork.purchase ≤ getFork fTestNet n ↔ getPurchaseStart fTestNet ≤ n := by
  cases fTestNet with
  | false => exact le_getFork_iff (by decide) (by decide) n
  | true => exact le_scanForks_iff n sortedForks_testNet (by decide) (by decide)

theorem getFork_getPurchaseStart (fTestNet : Bool) :
    getFork fTestNet (getPurchaseStart fTestNet) = .purchase := by
  cases fTestNet <;> decide

variable {env : QPEnv} {b p : CBlockIndex} {now : Int}

/-- Operations that enable nobody do the same at every position before `XST_FORKPURCHASE3`. -/
theorem applyOps_setBlock (hp : getFork env.fTestNet p.nHeight < .purchase3) :
    ∀ {deets : List QPTxDetails} {r r' : QPRegistry}, (∀ deet ∈ deets, deet.t ≠ .enable) →
      getFork env.fTestNet r.nBlockHeight < .purchase3 → r.applyOps env now b deets = .ok r' →
      (r.setBlock p).applyOps env now b deets = .ok (r'.setBlock p)
  | [], _, _, _, _, h => by
    cases h
    rfl
  | deet :: rest, r, r', hdeets, hr, h => by
    obtain ⟨hdeet, hrest⟩ := List.forall_mem_cons.1 hdeets
    rw [applyOps] at h ⊢
    have hread : Patch.Unread ⟨⟨none, none, none, none⟩, some (p.nHeight, p.hashBlock)⟩ env r deet :=
      ⟨iff_of_true hp hr, fun henable => absurd henable hdeet⟩
    rw [show r.setBlock p = r.patch ⟨⟨none, none, none, none⟩, some (p.nHeight, p.hashBlock)⟩ from rfl,
      applyOp_patch env now b r _ hread]
    cases hop : r.applyOp env now b deet with
    | error e => simp only [hop, reduceCtorEq] at h
    | ok r₁ =>
      rw [hop] at h
      have hframe := opsFrame_applyOp env now b r deet
      rw [hop] at hframe
      exact applyOps_setBlock hp hrest (hframe.height ▸ hr) h

theorem lt_qpos_of_le_getPurchaseStart {fTestNet : Bool} {n : Int} (h : n ≤ getPurchaseStart fTestNet) :
    getFork fTestNet n < .qpos := by
  have hmono : getFork fTestNet n ≤ .purchase := getFork_getPurchaseStart fTestNet ▸ getFork_mono fTestNet h
  exact Nat.lt_of_le_of_lt hmono (by decide)

theorem applyBlockOps_before (h : b.nHeight < getPurchaseStart env.fTestNet) (now : Int)
    (fJustCheck : Bool) (r : QPRegistry) :
    r.applyBlockOps env now fJustCheck b = .ok r := by
  have hfork : ¬ Fork.purchase ≤ getFork env.fTestNet b.nHeight := by
    rw [purchase_le_getFork_iff]
    omega
  rw [applyBlockOps, if_neg hfork]

theorem replay_before {now : CBlockIndex → Int} :
    ∀ {b : CBlockIndex} {rest : Chain}, Linked (b :: rest) → b.nHeight < getPurchaseStart env.fTestNet →
      replay env now (b :: rest) = some ((empty env).setBlock b)
  | b, [], hlinked, hb => by
    have hone : b.nHeight + 1 ≤ getPurchaseStart env.fTestNet := by omega
    refine connectBlock_eq_some.2 ?_
    rw [List.head?_nil, Option.getD_none, updateOnNewBlock_before (lt_qpos_of_le_getPurchaseStart hone)
      (lt_qpos_of_le_getPurchaseStart (Int.le_of_lt hb)), applyBlockOps_before hb]
  | b, p :: rest, hlinked, hb => by
    have hheight : b.nHeight = p.nHeight + 1 := hlinked.1
    rw [replay, replay_before hlinked.2 (by omega)]
    refine connectBlock_eq_some.2 ?_
    have hp : p.nHeight + 1 ≤ getPurchaseStart env.fTestNet := by omega
    rw [List.head?_cons, Option.getD_some, updateOnNewBlock_before (lt_qpos_of_le_getPurchaseStart hp)
      (lt_qpos_of_le_getPurchaseStart (Int.le_of_lt hb)), applyBlockOps_before hb]
    rfl

/-- The first block with purchases does the same to an empty registry at any position. -/
theorem connectBlock_first {rest : Chain} {r : QPRegistry}
    (hb : b.nHeight = getPurchaseStart env.fTestNet) (hp : b.nHeight = p.nHeight + 1)
    (hops : ∀ deet ∈ b.vDeets, deet.t ≠ .enable)
    (h : connectBlock env now b (p :: rest) ((empty env).setBlock p) = some r) :
    connectBlock env now b (p :: rest) (empty env) = some r := by
  have hpfork : getFork env.fTestNet (p.nHeight + 1) < .qpos :=
    lt_qpos_of_le_getPurchaseStart (by omega)
  have hbfork : getFork env.fTestNet b.nHeight < .qpos := lt_qpos_of_le_getPurchaseStart (by omega)
  have hlow : ∀ n : Int, n ≤ getPurchaseStart env.fTestNet → getFork env.fTestNet n < .purchase3 := by
    intro n hn
    have hmono : getFork env.fTestNet n ≤ .purchase :=
      getFork_getPurchaseStart env.fTestNet ▸ getFork_mono env.fTestNet hn
    exact Nat.lt_of_le_of_lt hmono (by decide)
  have hpur : Fork.purchase ≤ getFork env.fTestNet b.nHeight :=
    (purchase_le_getFork_iff env.fTestNet _).2 (by omega)
  rw [connectBlock_eq_some, List.head?_cons, Option.getD_some, updateOnNewBlock_before hpfork hbfork,
    applyBlockOps, if_pos hpur] at h ⊢
  cases hrun : ((empty env).setBlock p).applyOps env now b b.vDeets with
  | error e => simp only [hrun, Bool.false_eq_true, if_false, Prod.mk.injEq, reduceCtorEq, and_false] at h
  | ok y =>
    -- the position of the empty registry, taken for a block
    let origin : CBlockIndex := { b with nHeight := 0, hashBlock := env.hashGenesisBlock }
    have hpos := applyOps_setBlock (p := origin) (hlow 0 (by cases env.fTestNet <;> decide)) hops
      (hlow p.nHeight (by omega)) hrun
    have horigin : ((empty env).setBlock p).setBlock origin = empty env := rfl
    rw [horigin] at hpos
    rw [hrun] at h
    rw [hpos]
    exact h

end Stealth.QPRegistry

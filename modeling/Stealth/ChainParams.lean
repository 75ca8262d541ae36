import Mathlib.Algebra.Order.Ring.Int
import Mathlib.Data.List.Nodup

/-! The hard forks of both networks, and types and constants shared by the rest of the development. -/

namespace Stealth

/-- Byte strings: script bytes, raw public keys, and the bytes of a `std::string`. -/
abbrev Bytes := List UInt8

instance : LawfulBEq Bytes := List.instLawfulBEq

instance : LawfulBEq (Nat × Bytes) := Prod.instLawfulBEq

abbrev CPubKey := Bytes

abbrev Uint256 := BitVec 256

instance : Std.TransOrd Uint256 := BitVec.instTransOrd

abbrev Map (α β : Type) [Ord α] := Std.ExtTreeMap α β compare

export Std.ExtTreeMap (getElem?_insert getElem?_insert_self getElem?_erase getElem?_map getElem?_empty
  getElem?_eq_none ext_getElem? getD_insert getD_eq_getD_getElem? mem_insert contains_iff_mem
  mem_iff_isSome_getElem? mem_toList_iff_getElem?_eq_some)

def QP_MIN_SECS_PER_CLAIM : Int := 86400
def COIN : Int := 1000000
def CENT : Int := 10000
def MAX_MONEY : Int := COIN * 43300000

/-- For runs that are evaluated: whether one of them ends in a given way can be decided. -/
theorem exists_of_mem {α : Type} {x : Option α} {P : α → Prop} (h : ∃ a ∈ x, P a) : ∃ a, x = some a ∧ P a := h

/-- The hard forks in the order of their numbers. -/
inductive Fork where
  | genesis | fork002 | fork004 | fork005 | fork006
  | purchase | purchase2 | purchase3 | qpos | qposB | nft
  | feeless | missFix | reinstate | missFix2 | feeless2 | ip64
  deriving DecidableEq, Repr

namespace Fork

def toNat : Fork → Nat
  | genesis => 0
  | fork002 => 1
  | fork004 => 2
  | fork005 => 3
  | fork006 => 4
  | purchase => 5
  | purchase2 => 6
  | purchase3 => 7
  | qpos => 8
  | qposB => 9
  | nft => 10
  | feeless => 11
  | missFix => 12
  | reinstate => 13
  | missFix2 => 14
  | feeless2 => 15
  | ip64 => 16

instance : LT Fork := ⟨fun a b => a.toNat < b.toNat⟩
instance : LE Fork := ⟨fun a b => a.toNat ≤ b.toNat⟩
instance (a b : Fork) : Decidable (a < b) := inferInstanceAs (Decidable (a.toNat < b.toNat))
instance (a b : Fork) : Decidable (a ≤ b) := inferInstanceAs (Decidable (a.toNat ≤ b.toNat))

theorem lt_def {a b : Fork} : a < b ↔ a.toNat < b.toNat := Iff.rfl
theorem le_def {a b : Fork} : a ≤ b ↔ a.toNat ≤ b.toNat := Iff.rfl

end Fork

/-- `mapForksMainNet`. `XST_FORKQPOSB` has the height of `XST_FORKQPOS`; the first insertion of a
key into the map stays, so the main network never reports it. -/
def mapForksMainNet : List (Int × Fork) :=
  [(0, .genesis), (5460, .fork002), (130669, .fork004), (1732201, .fork005), (2378000, .fork006),
   (3657600, .purchase), (3673500, .purchase2), (3683900, .purchase3), (3695100, .qpos),
   (3695200, .nft), (3702300, .feeless), (3719600, .missFix), (3776758, .reinstate),
   (5572400, .missFix2), (5798888, .feeless2), (28800000, .ip64)]

/-- `mapForksTestNet`, with the placeholder forks that share a height dropped the same way. -/
def mapForksTestNet : List (Int × Fork) :=
  [(0, .genesis), (120, .fork002), (130, .fork004), (140, .fork005), (145, .fork006),
   (4204, .purchase), (4205, .purchase2), (17400, .qpos), (22500, .qposB), (22501, .nft),
   (3965963, .feeless), (4768119, .missFix), (99999999, .reinstate)]

/-- The scan over a fork table sorted by height: the last fork whose height is not above. -/
def scanForks (nHeight : Int) : Fork → List (Int × Fork) → Fork
  | nFork, [] => nFork
  | nFork, (h, f) :: rest => if h > nHeight then nFork else scanForks nHeight f rest

def getFork (fTestNet : Bool) (nHeight : Int) : Fork :=
  scanForks nHeight .genesis (if fTestNet then mapForksTestNet else mapForksMainNet)

def SortedForks (table : List (Int × Fork)) : Prop :=
  table.Pairwise fun a b => a.1 < b.1 ∧ a.2 < b.2

theorem le_scanForks (n : Int) : ∀ {table : List (Int × Fork)} {f₀ : Fork},
    SortedForks table → (∀ e ∈ table, f₀ ≤ e.2) → f₀ ≤ scanForks n f₀ table
  | [], _, _, _ => Nat.le_refl _
  | (h, f) :: rest, f₀, hs, hle => by
    obtain ⟨hhead, hrest⟩ := List.pairwise_cons.1 hs
    simp only [scanForks]
    split
    · exact Nat.le_refl _
    · refine Nat.le_trans (hle (h, f) (by simp)) (le_scanForks n hrest fun e he => ?_)
      exact Nat.le_of_lt (hhead e he).2

variable {f a b : Fork} {n h m : Int}

theorem le_scanForks_iff (n : Int) :
    ∀ {table : List (Int × Fork)} {f₀ : Fork}, SortedForks table → f₀ < f → (h, f) ∈ table →
      (f ≤ scanForks n f₀ table ↔ h ≤ n)
  | (h', f') :: rest, f₀, hs, hlt, hmem => by
    obtain ⟨hhead, hrest⟩ := List.pairwise_cons.1 hs
    have hlow : h' ≤ h := by
      rcases List.mem_cons.1 hmem with heq | hin
      · cases heq; exact Int.le_refl _
      · exact Int.le_of_lt (hhead _ hin).1
    simp only [scanForks]
    split
    · next hgt =>
      constructor
      · intro hf; exact absurd hf (Nat.not_le.2 hlt)
      · intro hn; omega
    · next hgt =>
      rcases List.mem_cons.1 hmem with heq | hin
      · cases heq
        refine iff_of_true (le_scanForks n hrest fun e he => ?_) (by omega)
        exact Nat.le_of_lt (hhead e he).2
      · exact le_scanForks_iff n hrest (hhead _ hin).2 hin

theorem scanForks_mono (hnm : n ≤ m) : ∀ {table : List (Int × Fork)} {f₀ : Fork},
    SortedForks table → (∀ e ∈ table, f₀ ≤ e.2) → scanForks n f₀ table ≤ scanForks m f₀ table
  | [], _, _, _ => Nat.le_refl _
  | (h, f) :: rest, f₀, hs, hle => by
    obtain ⟨hhead, hrest⟩ := List.pairwise_cons.1 hs
    have hnext : ∀ e ∈ rest, f ≤ e.2 := fun e he => Nat.le_of_lt (hhead e he).2
    by_cases hn : h > n
    · rw [scanForks, if_pos hn]
      exact le_scanForks m hs hle
    · have hm : ¬ h > m := fun hgt => hn (Int.lt_of_le_of_lt hnm hgt)
      rw [scanForks, if_neg hn, scanForks, if_neg hm]
      exact scanForks_mono hnm hrest hnext

theorem sortedForks_mainNet : SortedForks mapForksMainNet := by
  unfold SortedForks mapForksMainNet
  decide

theorem sortedForks_testNet : SortedForks mapForksTestNet := by
  unfold SortedForks mapForksTestNet
  decide

theorem getFork_mono (fTestNet : Bool) (h : n ≤ m) : getFork fTestNet n ≤ getFork fTestNet m := by
  cases fTestNet with
  | false => exact scanForks_mono h sortedForks_mainNet fun _ _ => Nat.zero_le _
  | true => exact scanForks_mono h sortedForks_testNet fun _ _ => Nat.zero_le _

/-- On the main network a fork other than genesis is in force exactly from its table height on. -/
theorem le_getFork_iff (hmem : (h, f) ∈ mapForksMainNet) (hf : Fork.genesis < f) (n : Int) :
    f ≤ getFork false n ↔ h ≤ n :=
  le_scanForks_iff n sortedForks_mainNet hf hmem

theorem Fork.not_le : ¬ a ≤ b ↔ b < a := Nat.not_le
theorem Fork.not_lt : ¬ a < b ↔ b ≤ a := Nat.not_lt

end Stealth

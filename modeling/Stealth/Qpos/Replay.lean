import Stealth.Qpos.Invariant

/-! Replaying a chain from an empty registry. A chain lists its blocks, newest first. -/

namespace Stealth

abbrev Chain := List CBlockIndex

def Linked : Chain → Prop
  | [] => True
  | [b] => b.nHeight = 0
  | b :: p :: rest => b.nHeight = p.nHeight + 1 ∧ Linked (p :: rest)

namespace QPRegistry

/-- `UpdateOnNewBlock` for a block on a chain, without snapshots; `none` if it does not accept. -/
def connectBlock (env : QPEnv) (now : Int) (b : CBlockIndex) (rest : Chain) (r : QPRegistry) :
    Option QPRegistry :=
  match (r.updateOnNewBlock env now .noSnaps false (rest.head?.getD b) b ∅).2 with
  | (r', .accepted) => some r'
  | _ => none

/-- Replay of a chain block by block; `now` is the local clock when a block is applied. -/
def replay (env : QPEnv) (now : CBlockIndex → Int) : Chain → Option QPRegistry
  | [] => some (empty env)
  | b :: rest => (replay env now rest).bind (connectBlock env (now b) b rest)

def blockClock (b : CBlockIndex) : Int := b.nTime.toNat

theorem connectBlock_eq_some {env : QPEnv} {now : Int} {b : CBlockIndex} {rest : Chain} {r r' : QPRegistry} :
    connectBlock env now b rest r = some r' ↔
      (r.updateOnNewBlock env now .noSnaps false (rest.head?.getD b) b ∅).2 = (r', .accepted) := by
  unfold connectBlock
  rcases (r.updateOnNewBlock env now .noSnaps false (rest.head?.getD b) b ∅).2 with ⟨r₁, _ | _ | _⟩ <;>
    simp

theorem Reachable.replay {env : QPEnv} {now : CBlockIndex → Int} : ∀ {c : Chain} {r : QPRegistry},
    replay env now c = some r → Reachable env r
  | [], r, h => by cases h; exact .empty
  | b :: rest, r, h => by
    obtain ⟨r₀, hr₀, hb⟩ := Option.bind_eq_some_iff.1 h
    have hreach := Reachable.block (now b) .noSnaps false (rest.head?.getD b) b ∅
      (Reachable.replay hr₀)
    rwa [connectBlock_eq_some.1 hb] at hreach

end QPRegistry

end Stealth

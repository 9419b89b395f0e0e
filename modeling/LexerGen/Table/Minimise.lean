import LexerGen.Exploration
import LexerGen.Table.Basic

/-! Minimisation. States are put into blocks that are split until two states of a block have the
same tag and go to the same block on every character; then each block becomes one state. A block is
named by its leader, its state with the lowest number. -/

namespace LexerGen.StateTable

/-- The leader of each state, and the number of blocks. -/
structure Blocks where
  leader : Array Nat
  count : Nat

namespace Blocks

/-- The leader of `state`'s block. -/
def of (b : Blocks) (state : Nat) : Nat := b.leader.getD state state

end Blocks

section

variable {κ : Type} [BEq κ] [Hashable κ]

/-- The blocks of the states below `size` that have the same key. -/
def blocksBy (size : Nat) (key : Nat → κ) : Blocks :=
  let (leader, leaders) := (List.range size).foldl
    (fun (leader, (leaders : Std.HashMap κ Nat)) state =>
      match leaders[key state]? with
      | some first => (leader.push first, leaders)
      | none => (leader.push state, leaders.insert (key state) state))
    (Array.emptyWithCapacity size, ∅)
  ⟨leader, leaders.size⟩

end

/-- The edges of `state` between blocks. -/
def blockEdges (t : StateTable) (b : Blocks) (state : Nat) : List Edge :=
  Edge.coalesce ((t.edges state).toList.map fun e => { e with target := b.of e.target })

/-- Splits the blocks by where their states go. -/
def split (t : StateTable) (b : Blocks) : Blocks :=
  blocksBy t.size fun state => (b.of state, t.blockEdges b state)

/-- Splits until nothing changes. Every round but the last makes a block more, so there are at most
as many rounds as states. -/
def refine (t : StateTable) : Nat → Blocks → Blocks
  | 0, b => b
  | fuel + 1, b =>
    let b' := t.split b
    if b'.count = b.count then b' else t.refine fuel b'

/-- The blocks of states that no text tells apart. -/
def blocks (t : StateTable) : Blocks := t.refine t.size (blocksBy t.size t.tag?)

/-- The table of the blocks that the entry can reach, numbered in the order in which a breadth-first
walk from the entry meets them. -/
def minimise (t : StateTable) : StateTable :=
  let b := t.blocks
  let next := fun leader => (t.blockEdges b leader).map fun e => (e.range, e.target)
  match Exploration.run next (t.size + 1) (b.of t.entry) with
  | none => t
  | some x =>
    let rows := x.edges.zip x.numbering.states
    { entry := 0
      rows := rows.map fun (edges, leader) => { edges := edges.toArray, tag := t.tag? leader } }

end LexerGen.StateTable

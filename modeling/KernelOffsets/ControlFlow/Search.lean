/-
Which blocks can be reached from the entry, and by which shortest chain of
blocks. The search goes in rounds: each round enters the successors of the
blocks entered in the round before, in order. Every entered block keeps the
chain by which it was entered first, so a chain is as long as its round.
-/
import KernelOffsets.ControlFlow.Block
import Std.Data.HashMap

namespace KernelOffsets.ControlFlow

/-- The blocks by their start addresses. -/
def index (f : ControlFlow) : Std.HashMap UInt64 Block :=
  .ofList (f.blocks.map fun b => (b.start, b))

/-- The state of a search. -/
structure Search where
  /-- For each entered block the chain that leads to it, from the block back to the entry. -/
  chains : Std.HashMap UInt64 (List UInt64)
  /-- The blocks entered in the current round, the last one first. -/
  fresh : List UInt64

namespace Search

/-- Nothing is entered yet. -/
def empty : Search := ⟨∅, []⟩

/-- Enters a block at the end of a chain, if there is such a block and it is new. -/
def enter (blocks : Std.HashMap UInt64 Block) (chain : List UInt64) (s : Search) (start : UInt64) : Search :=
  if blocks.contains start && !s.chains.contains start then
    { chains := s.chains.insert start (start :: chain), fresh := start :: s.fresh }
  else s

/-- Enters the successors of a block. -/
def expand (blocks : Std.HashMap UInt64 Block) (s : Search) (start : UInt64) : Search :=
  match blocks[start]?, s.chains[start]? with
  | some block, some chain => block.successors.foldl (enter blocks chain) s
  | _, _ => s

/-- One round: the successors of all blocks of the round before. -/
def round (blocks : Std.HashMap UInt64 Block) (s : Search) : Search :=
  s.fresh.reverse.foldl (expand blocks) { s with fresh := [] }

/-- At most `n` rounds, as long as blocks are entered. -/
def rounds (blocks : Std.HashMap UInt64 Block) : Nat → Search → Search
  | 0, s => s
  | n + 1, s => if s.fresh.isEmpty then s else rounds blocks n (round blocks s)

end Search

/-- The chains to all blocks that can be reached. Each round enters a block, so there are no more rounds than blocks. -/
def search (f : ControlFlow) : Search :=
  let blocks := f.index
  .rounds blocks f.blocks.length (Search.empty.enter blocks [] f.entry)

/--
The blocks in the order of their start addresses. Code that passes the end of
the address space is decoded in another one.
-/
def byStart (f : ControlFlow) : List Block :=
  f.blocks.mergeSort fun b b' => b.start ≤ b'.start

/-- The blocks that can be reached from the entry, in the order of their addresses. -/
def reachable (f : ControlFlow) : List Block :=
  let chains := f.search.chains
  f.byStart.filter fun b => chains.contains b.start

/-- The address of the lowest near call of `target` that can be reached. -/
def findCall? (f : ControlFlow) (target : UInt64) : Option UInt64 :=
  ((f.reachable.flatMap Block.instructions).find? fun i => i.isNearCall && i.nearTarget == target).map (·.ip)

/-- The last block that starts at or before an address, if it holds an instruction there. -/
def blockAt? (f : ControlFlow) (address : UInt64) : Option Block :=
  (f.byStart.filter (·.start ≤ address)).getLast?.filter (·.instructions.any (·.ip == address))

/-- A way through the code: the blocks entered, and the instructions up to its target. -/
structure Path where
  blocks : List UInt64
  instructions : List Instruction
  deriving DecidableEq, Repr

/-- The instructions on the shortest chain of blocks from the entry up to, but without, the one at `target`. -/
def pathTo? (f : ControlFlow) (target : UInt64) : Option Path := do
  let goal ← f.blockAt? target
  let chain ← f.search.chains[goal.start]?
  let blocks := f.index
  let instructions := chain.reverse.flatMap fun start =>
    match blocks[start]? with
    | some block => block.instructions
    | none => []
  return { blocks := chain.reverse, instructions := instructions.takeWhile (·.ip != target) }

end KernelOffsets.ControlFlow

/-
Basic blocks of the code of one function. The code is decoded by one sweep;
a block ends at an instruction that passes control on, and where another
branch enters. The blocks are the runs of the decoded instructions, so they
hold every one of them once and in order.
-/
import KernelOffsets.Encoding.Decode
import Std.Data.HashSet

namespace KernelOffsets

/-- The addresses from `start` up to, but without, `stop`. -/
structure CodeRange where
  start : UInt64
  stop : UInt64
  deriving DecidableEq, Repr

/-- Whether an address lies in a range. -/
def CodeRange.contains (r : CodeRange) (a : UInt64) : Bool :=
  r.start ≤ a && a < r.stop

/--
Where control can go after an instruction that ends a block, as far as that
lies in the code; `none` if the instruction does not end a block.
-/
def Instruction.successors? (i : Instruction) (range : CodeRange) : Option (List UInt64) :=
  if i.isInvalid then some []
  else match i.flow with
    | .conditionalBranch => some ([i.nearTarget, i.nextIp].filter range.contains)
    | .unconditionalBranch => some ([i.nearTarget].filter range.contains)
    | .indirectBranch | .ret | .interrupt | .exception => some []
    | .next | .call | .indirectCall | .transaction => none

/-- Instructions that are run one after the other, and where control can go after the last. -/
structure Block where
  head : Instruction
  tail : List Instruction
  successors : List UInt64
  deriving DecidableEq, Repr

namespace Block

/-- The address of the first instruction. -/
def start (b : Block) : UInt64 := b.head.ip

/-- All instructions, in order. -/
def instructions (b : Block) : List Instruction := b.head :: b.tail

/-- The last instruction of a run that starts with `head`. -/
def last (head : Instruction) (tail : List Instruction) : Instruction :=
  (head :: tail).getLast (by simp)

/-- The block of a run of instructions; a run that does not end by itself goes on to the next address. -/
def ofRun (range : CodeRange) : List Instruction → Option Block
  | [] => none
  | head :: tail =>
    let final := last head tail
    some {
      head, tail
      successors := (final.successors? range).getD ([final.nextIp].filter range.contains) }

theorem instructions_ofRun {range : CodeRange} {run : List Instruction} {b : Block}
    (h : ofRun range run = some b) : b.instructions = run := by
  cases run with
  | nil => cases h
  | cons head tail => cases h; rfl

end Block

/-- The blocks of the code of one function, in the order in which they are decoded. -/
structure ControlFlow where
  entry : UInt64
  blocks : List Block
  deriving DecidableEq, Repr

namespace ControlFlow

/-- The addresses at which a block must start. -/
def leaders (range : CodeRange) (instructions : List Instruction) : Std.HashSet UInt64 :=
  .ofList (range.start :: instructions.flatMap fun i =>
    match i.successors? range with
    | some successors => i.nextIp :: successors
    | none => [])

/-- Whether an instruction belongs to the block of the one before it. -/
def continues (range : CodeRange) (starts : Std.HashSet UInt64) (before i : Instruction) : Bool :=
  (before.successors? range).isNone && !starts.contains i.ip

/-- The blocks of decoded instructions. -/
def ofInstructions (range : CodeRange) (instructions : List Instruction) : ControlFlow where
  entry := range.start
  blocks :=
    (instructions.splitBy (continues range (leaders range instructions))).filterMap (Block.ofRun range)

/-- The blocks of some code that is entered at its first byte. -/
def build (mode : Bitness) (code : List UInt8) (entry : UInt64) : ControlFlow :=
  ofInstructions ⟨entry, entry + code.length.toUInt64⟩ (Encoding.sweep mode entry code)

/-- All instructions, in order. -/
def instructions (f : ControlFlow) : List Instruction :=
  f.blocks.flatMap Block.instructions

end ControlFlow

end KernelOffsets

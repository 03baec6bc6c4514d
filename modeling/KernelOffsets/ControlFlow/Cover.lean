/-
The blocks of a function cover its code: one after the other they are the
list of all decoded instructions (`instructions_ofInstructions`), and every
block is one run of that list (`instructions_mem_runs`).
-/
import KernelOffsets.ControlFlow.Block
import Mathlib.Data.List.SplitBy

namespace KernelOffsets.ControlFlow

/-- The runs that the blocks are made of. -/
abbrev runs (range : CodeRange) (l : List Instruction) : List (List Instruction) :=
  l.splitBy (continues range (leaders range l))

theorem flatMap_ofRun (range : CodeRange) (runs : List (List Instruction)) :
    (runs.filterMap (Block.ofRun range)).flatMap Block.instructions = runs.flatten := by
  induction runs with
  | nil => rfl
  | cons run runs ih =>
    cases run with
    | nil => exact ih
    | cons head tail => simpa [Block.ofRun, Block.instructions] using ih

/-- **The blocks hold every instruction once and in order.** -/
theorem instructions_ofInstructions (range : CodeRange) (l : List Instruction) :
    (ofInstructions range l).instructions = l := by
  unfold instructions ofInstructions
  rw [flatMap_ofRun, List.flatten_splitBy]

/-- The instructions of a block are a run. -/
theorem instructions_mem_runs {range : CodeRange} {l : List Instruction} {b : Block}
    (h : b ∈ (ofInstructions range l).blocks) : b.instructions ∈ runs range l := by
  obtain ⟨run, hrun, hb⟩ := List.mem_filterMap.1 h
  rw [Block.instructions_ofRun hb]
  exact hrun

end KernelOffsets.ControlFlow

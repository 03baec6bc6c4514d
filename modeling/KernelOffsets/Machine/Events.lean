/-
What the machine reports about an instruction. The events are a function of
the machine before the instruction; the step itself does not know them.
-/
import KernelOffsets.Event
import KernelOffsets.Machine.Step

namespace KernelOffsets.Machine

/-- The events of the stores of an instruction that has no rule: one for each store that cannot be followed. -/
def storeEvents (m : Machine) (i : Instruction) : List Event :=
  (m.storesOf i).filterMap fun
    | (some _, _ + 1) => none
    | _ => some (.untrackedStore i.ip)

/-- The events of an instruction without a rule of its own. -/
def otherEvents (m : Machine) (i : Instruction) : List Event :=
  match i.flow with
  | .call | .indirectCall => [.skippingCall i.ip]
  | .conditionalBranch | .unconditionalBranch | .indirectBranch => []
  | _ =>
    let repetition := if i.repeated && !m.memory.slots.isEmpty then [.repeatedStore i.ip] else []
    .unmodelled i.operation i.ip :: repetition ++ m.storeEvents i

/-- The events of one instruction. -/
def events (m : Machine) (i : Instruction) : List Event :=
  match i.operation with
  | .invalid | .unmodelled _ => m.otherEvents i
  | _ => []

end KernelOffsets.Machine

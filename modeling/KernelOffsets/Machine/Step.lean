/-
One instruction. Each modelled operation has its rule; a call is skipped and
leaves the volatile registers unknown; a branch changes nothing, because the
path has already decided it; every other instruction makes what it may change
unknown, with addresses computed from the registers before it.
-/
import KernelOffsets.Machine.Basic

namespace KernelOffsets

/-- The operand that stands where an instruction has none. -/
def Operand.missing : Operand := .register .absent

namespace Instruction

/-- The first operand. -/
def first (i : Instruction) : Operand :=
  match i.operands with
  | o :: _ => o
  | [] => .missing

/-- The second operand. -/
def second (i : Instruction) : Operand :=
  match i.operands with
  | _ :: o :: _ => o
  | _ => .missing

theorem first_mem (i : Instruction) : i.first = .missing ∨ i.first ∈ i.operands := by
  cases h : i.operands with
  | nil => simp [first, h]
  | cons o rest => simp [first, h]

theorem second_mem (i : Instruction) : i.second = .missing ∨ i.second ∈ i.operands := by
  rcases h : i.operands with - | ⟨o, - | ⟨o', rest⟩⟩ <;> simp [second, h]

/-- Whether the two operands are the same register. -/
def isOnItself (i : Instruction) : Bool :=
  match i.operands with
  | [.register a, .register b] => a == b
  | _ => false

end Instruction

namespace Machine

/-- The part of a shift count that counts for an operand of a size. -/
def shiftCount (size : Nat) (bits : UInt64) : UInt64 :=
  bits &&& (if size = 8 then 0x3f else 0x1f)

/-- A word shifted to the right with its sign. -/
def shiftSigned (bits count : UInt64) : UInt64 :=
  (bits.toInt64 >>> count.toInt64).toUInt64

/-- The first operand of a two operand instruction becomes `f` of both and of its size. -/
def combine (m : Machine) (i : Instruction) (f : Value → Value → Nat → Value) : Machine :=
  m.assign i.first (f (m.fetch i.first) (m.fetch i.second) (m.operandBytes i.first))

/-- The first operand becomes `f` of itself. -/
def change (m : Machine) (i : Instruction) (f : Value → Value) : Machine :=
  m.assign i.first (f (m.fetch i.first))

/-- The operand is read before the stack pointer moves. -/
def push (m : Machine) (i : Instruction) : Machine :=
  let v := m.fetch i.first
  let m := m.setStackTop (m.stackTop - i.stackBytes.toUInt64)
  m.store m.stackTop i.stackBytes v

/-- The operand is written after the stack pointer has moved. -/
def pop (m : Machine) (i : Instruction) : Machine :=
  let v := m.load m.stackTop i.stackBytes
  let m := m.setStackTop (m.stackTop + i.stackBytes.toUInt64)
  m.assign i.first v

/-- Both operands are read before either is written. -/
def exchange (m : Machine) (i : Instruction) : Machine :=
  let a := m.fetch i.first
  let b := m.fetch i.second
  (m.assign i.first b).assign i.second a

/-- The called function is not run; it may change every volatile register. -/
def skipCall (m : Machine) : Machine :=
  m.bitness.volatile.foldl clobber m

/-- The address and size of each store of an instruction, by the registers before it. -/
def storesOf (m : Machine) (i : Instruction) : List (Option UInt64 × Nat) :=
  i.stores.map fun o => (m.registers.knownAddress? o, o.size)

/-- A store of unknown content; where it goes or how far is not always known. -/
def storeUnknown (m : Memory) (b : Bitness) : Option UInt64 × Nat → Memory
  | (some address, n + 1) => m.store b address (n + 1) (.plain 0)
  | _ => m.forgetSpills

/-- What an instruction may change becomes unknown. -/
def forget (m : Machine) (i : Instruction) : Machine :=
  let stores := m.storesOf i
  let memory := if i.repeated then m.memory.forgetSpills else m.memory
  let m := { m with memory := stores.foldl (storeUnknown · m.bitness) memory }
  i.changes.foldl clobber m

/-- An instruction without a rule of its own. -/
def stepOther (m : Machine) (i : Instruction) : Machine :=
  match i.flow with
  | .call | .indirectCall => m.skipCall
  | .conditionalBranch | .unconditionalBranch | .indirectBranch => m
  | _ => m.forget i

/-- The machine after one instruction. -/
def step (m : Machine) (i : Instruction) : Machine :=
  match i.operation with
  | .mov => m.assign i.first (m.fetch i.second)
  | .movzx => m.assign i.first (.plain (m.fetch i.second).bits)
  | .movsx | .movsxd =>
    m.assign i.first (.plain (signExtend (m.operandBytes i.second) (m.fetch i.second).bits))
  | .lea =>
    match i.second with
    | .memory o => m.assign i.first (m.registers.address o)
    | _ => m
  | .add => m.combine i fun a b _ => a.add b
  | .sub => if i.isOnItself then m.assign i.first (.plain 0) else m.combine i fun a b _ => a.sub b
  | .and => m.combine i fun a b _ => .plain (a.bits &&& b.bits)
  | .or => m.combine i fun a b _ => .plain (a.bits ||| b.bits)
  | .xor =>
    if i.isOnItself then m.assign i.first (.plain 0)
    else m.combine i fun a b _ => .plain (a.bits ^^^ b.bits)
  | .shl => m.combine i fun a b n => .plain (a.bits <<< shiftCount n b.bits)
  | .shr => m.combine i fun a b n => .plain (lowBytes n a.bits >>> shiftCount n b.bits)
  | .sar => m.combine i fun a b n => .plain (shiftSigned (signExtend n a.bits) (shiftCount n b.bits))
  | .inc => m.change i fun a => ⟨a.bits + 1, a.based⟩
  | .dec => m.change i fun a => ⟨a.bits - 1, a.based⟩
  | .neg => m.change i fun a => .plain (0 - a.bits)
  | .not => m.change i fun a => .plain (~~~ a.bits)
  | .push => m.push i
  | .pop => m.pop i
  | .xchg => m.exchange i
  | .nop | .cmp | .test | .bt => m
  | .invalid | .unmodelled _ => m.stepOther i

theorem step_mov (m : Machine) {i : Instruction} {o q : Operand} (h : i.operation = .mov)
    (hoperands : i.operands = [o, q]) : m.step i = m.assign o (m.fetch q) := by
  simp only [step, h, Instruction.first, Instruction.second, hoperands]

theorem step_lea (m : Machine) {i : Instruction} {o : Operand} {a : MemoryOperand} (h : i.operation = .lea)
    (hoperands : i.operands = [o, .memory a]) : m.step i = m.assign o (m.registers.address a) := by
  simp only [step, h, Instruction.first, Instruction.second, hoperands]

end Machine

end KernelOffsets

/-
The machine that replays instructions: a register file and a memory over a
kernel image. Operands are read and written here; two ways of computing an
address are told apart. `address` is what an instruction uses and carries the
relation to the base; `knownAddress?` answers only if every register in the
reference is one whose value the machine holds.
-/
import KernelOffsets.Image.Basic
import KernelOffsets.Instruction.Basic
import KernelOffsets.Machine.Memory
import KernelOffsets.Register.File

namespace KernelOffsets

/-- Registers and memory over an image. -/
structure Machine where
  image : Image
  registers : RegisterFile
  memory : Memory

namespace Machine

/-- All registers zero but the stack pointer, and nothing written. -/
def initial (image : Image) (stackTop : UInt64) : Machine :=
  ⟨image, .initial image.bitness stackTop, .empty⟩

/-- The mode of the machine. -/
def bitness (m : Machine) : Bitness := m.registers.bitness

/-- The byte of the image at an address, and zero outside of it. -/
def background (m : Machine) (address : UInt64) : UInt8 :=
  (m.image.byte? address).getD 0

/-- Reads memory. -/
def load (m : Machine) (address : UInt64) (size : Nat) : Value :=
  m.memory.load m.bitness m.background address size

/-- Writes memory. -/
def store (m : Machine) (address : UInt64) (size : Nat) (v : Value) : Machine :=
  { m with memory := m.memory.store m.bitness address size v }

/-- Writes a register. -/
def writeRegister (m : Machine) (r : Register) (v : Value) : Machine :=
  { m with registers := m.registers.write r v }

/-- Forgets what a register holds. -/
def clobber (m : Machine) (r : Register) : Machine :=
  { m with registers := m.registers.clobber r }

end Machine

/-- Whether a segment register leads to data of the thread, and not to address zero. -/
def Register.isThreadSegment : Register → Bool
  | .segment .fs | .segment .gs => true
  | _ => false

namespace RegisterFile

/-- A register times a scale; only the register itself is relative to the base, a multiple is not. -/
def scaled (f : RegisterFile) (index : Register) (scale : UInt64) : Value :=
  let v := f.read index
  ⟨v.bits * scale, v.based && scale == 1⟩

/-- The address that an instruction uses. A reference to the instruction pointer is absolute already. -/
def address (f : RegisterFile) (o : MemoryOperand) : Value :=
  match o.base with
  | .instructionPointer _ => .plain (o.displacement &&& f.bitness.addressMask)
  | base =>
    (((Value.plain o.displacement).add (f.read base)).add (f.scaled o.index o.scale)).mask
      f.bitness.addressMask

/-- What a register adds to an address, if its value is held or it adds nothing. -/
def known? (f : RegisterFile) (r : Register) : Option UInt64 :=
  match r with
  | .absent => some 0
  | r => r.gpr?.map fun _ => (f.read r).bits

/-- The address of a reference, if the values of all its registers are held. -/
def knownAddress? (f : RegisterFile) (o : MemoryOperand) : Option UInt64 := do
  if o.segment.isThreadSegment then none
  else
    let base ← match o.base with
      | .instructionPointer _ => some 0
      | base => f.known? base
    let index ← f.known? o.index
    return (o.displacement + base + index * o.scale) &&& f.bitness.addressMask

end RegisterFile

namespace Machine

/-- The size at which an operand is read. -/
def operandBytes (m : Machine) : Operand → Nat
  | .register r => r.bytes
  | .memory o => o.size
  | _ => m.bitness.pointerBytes

/-- The value of an operand; a branch target has none and reads as zero. -/
def fetch (m : Machine) : Operand → Value
  | .register r => m.registers.read r
  | .memory o => m.load (m.registers.address o).bits o.size
  | .immediate bits _ => .plain bits
  | _ => .plain 0

/-- Replaces the value of an operand; only registers and memory have one. -/
def assign (m : Machine) (o : Operand) (v : Value) : Machine :=
  match o with
  | .register r => m.writeRegister r v
  | .memory o => m.store (m.registers.address o).bits o.size v
  | _ => m

/-- The stack pointer. -/
def stackTop (m : Machine) : UInt64 :=
  (m.registers.read m.bitness.stackPointer).bits

/-- Moves the stack pointer. -/
def setStackTop (m : Machine) (address : UInt64) : Machine :=
  { m with registers := m.registers.set m.bitness.stackPointer (address &&& m.bitness.addressMask) }

@[simp] theorem bitness_store (m : Machine) (a : UInt64) (n : Nat) (v : Value) :
    (m.store a n v).bitness = m.bitness := rfl

@[simp] theorem bitness_writeRegister (m : Machine) (r : Register) (v : Value) :
    (m.writeRegister r v).bitness = m.bitness := by
  simp [writeRegister, bitness]

@[simp] theorem bitness_assign (m : Machine) (o : Operand) (v : Value) :
    (m.assign o v).bitness = m.bitness := by
  cases o <;> simp [assign]

end Machine

end KernelOffsets

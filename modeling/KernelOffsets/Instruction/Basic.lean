/-
Instructions as the library sees them after decoding: what is done, to which
operands, where control goes next, and which registers and memory the
processor may change. Operands are absolute; nothing in an instruction
depends on its encoding but the length.
-/
import KernelOffsets.Register.Basic

namespace KernelOffsets

/--
What an instruction does. The first group has its own rule in the machine;
every other instruction is known by its name and by what it may change.
-/
inductive Operation where
  | mov | movzx | movsx | movsxd | lea
  | add | sub | and | or | xor
  | shl | shr | sar
  | inc | dec | neg | not
  | push | pop | xchg
  | nop | cmp | test | bt
  /-- Bytes that are no instruction, or not all of one. -/
  | invalid
  | unmodelled (name : String)
  deriving DecidableEq, Repr

/-- The name of an operation, with a capital letter. -/
def Operation.name : Operation → String
  | mov => "Mov" | movzx => "Movzx" | movsx => "Movsx" | movsxd => "Movsxd" | lea => "Lea"
  | add => "Add" | sub => "Sub" | and => "And" | or => "Or" | xor => "Xor"
  | shl => "Shl" | shr => "Shr" | sar => "Sar"
  | inc => "Inc" | dec => "Dec" | neg => "Neg" | not => "Not"
  | push => "Push" | pop => "Pop" | xchg => "Xchg"
  | nop => "Nop" | cmp => "Cmp" | test => "Test" | bt => "Bt"
  | invalid => "INVALID"
  | unmodelled name => name

/-- Where control goes after an instruction. -/
inductive Flow where
  | next
  | conditionalBranch
  | unconditionalBranch
  | indirectBranch
  | call
  | indirectCall
  | ret
  | interrupt
  | exception
  /-- The start or the abort of a memory transaction. -/
  | transaction
  deriving DecidableEq, Repr

/-- A reference to memory. The displacement of an instruction-relative reference is absolute. -/
structure MemoryOperand where
  segment : Register
  base : Register
  index : Register
  scale : UInt64
  displacement : UInt64
  /-- The number of bytes that are read or written; zero if it is not known or no byte is. -/
  size : Nat
  deriving DecidableEq, Repr

/-- An explicit operand of an instruction. -/
inductive Operand where
  | register (r : Register)
  | memory (m : MemoryOperand)
  /-- A constant, already extended to the width it is used at. -/
  | immediate (bits : UInt64) (w : Width)
  /-- The target of a near branch, as an instruction pointer of some width. -/
  | nearTarget (target : UInt64) (w : Width)
  | farTarget (selector offset : UInt64) (w : Width)
  deriving DecidableEq, Repr

/-! ## Spelling -/

/-- A word in front of a mnemonic. -/
inductive Word where
  | operandSize (w : Width)
  | addressSize (w : Width)
  | segment (s : Segment)
  /-- The hints that a lock is taken or given back. -/
  | acquire | release
  | lock | noTrack | bound
  | repeated | whileEqual | whileNotEqual
  deriving DecidableEq, Repr

/-- How a floating point instruction rounds; the last way only keeps exceptions silent. -/
inductive Rounding where
  | nearest | down | up | zero | silent
  deriving DecidableEq, Repr

/-- One of the things that stand between commas behind a mnemonic. -/
inductive Term where
  | plain (o : Operand)
  /-- The destination of a stack register instruction that is not the top of the stack. -/
  | destination (o : Operand)
  /-- A destination under a mask, and whether the elements left out become zero. -/
  | masked (o : Operand) (opmask : Nat) (zeroing : Bool)
  /-- One element in memory that stands for a number of elements. -/
  | broadcast (o : Operand) (count : Nat)
  | rounding (r : Rounding)
  deriving DecidableEq, Repr

/-- The word in front of memory. -/
inductive MemoryWord where
  /-- The other operands or the mnemonic tell the size. -/
  | implied
  | size
  /-- A far pointer; the width of its offset is given where it is not the usual one. -/
  | far (offset : Option Width)
  deriving DecidableEq, Repr

/-- The word in front of a branch target. -/
inductive Distance where
  | implied | short | near
  deriving DecidableEq, Repr

/-- How an instruction is written, as far as the operation does not tell. -/
structure Spelling where
  words : List Word := []
  /-- The mnemonic, where it is not the usual one of the operation. -/
  mnemonic : Option String := none
  terms : List Term := []
  memory : MemoryWord := .implied
  /-- The width of an address that stands alone, where it is not the usual one. -/
  address : Option Width := none
  distance : Distance := .implied
  deriving DecidableEq, Repr

/-- A decoded instruction. -/
structure Instruction where
  bitness : Bitness
  ip : UInt64
  length : Nat
  operation : Operation
  flow : Flow
  operands : List Operand
  /-- The registers that may be changed, operands and others. -/
  changes : List Register
  /-- The memory that may be changed. -/
  stores : List MemoryOperand
  /-- A repeat prefix stands before the instruction and is not part of its opcode. -/
  repeated : Bool
  /-- The number of bytes that a push or pop moves. -/
  stackBytes : Nat
  spelling : Spelling
  deriving DecidableEq, Repr

namespace Instruction

/-- Whether the bytes are no instruction. -/
def isInvalid (i : Instruction) : Bool :=
  i.operation == .invalid

/-- The address of the following instruction. -/
def nextIp (i : Instruction) : UInt64 :=
  i.ip + i.length.toUInt64

/-- The target of a near branch; zero for every other instruction. -/
def nearTarget (i : Instruction) : UInt64 :=
  match i.operands with
  | .nearTarget target _ :: _ => target
  | _ => 0

/-- Whether the instruction is a direct call inside the code segment. -/
def isNearCall (i : Instruction) : Bool :=
  i.flow == .call &&
    match i.operands with
    | [.nearTarget _ _] => true
    | _ => false

/-- An instruction that cannot be decoded. -/
def undecodable (b : Bitness) (ip : UInt64) (length : Nat) : Instruction where
  bitness := b
  ip := ip
  length := length
  operation := .invalid
  flow := .exception
  operands := []
  changes := []
  stores := []
  repeated := false
  stackBytes := 0
  spelling := {}

@[simp] theorem isInvalid_undecodable (b : Bitness) (ip : UInt64) (n : Nat) :
    (undecodable b ip n).isInvalid = true := rfl

end Instruction

end KernelOffsets

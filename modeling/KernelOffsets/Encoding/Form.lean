/-
Instruction forms: for one opcode, what the instruction does, where its
operands stand in the encoding, which of them it changes, what it changes
besides, and how it is written. The opcode maps are tables of forms.
-/
import KernelOffsets.Encoding.Address

namespace KernelOffsets.Encoding

/-! ## Sizes -/

/-- An operand size that may depend on the prefixes. -/
inductive Size where
  | byte | word | dword | qword
  /-- 16, 32 or 64 bits, as the prefixes say. -/
  | operand
  /-- The same, but never more than 32 bits. -/
  | capped
  /-- 64 bits if the prefixes ask for it, else 32. -/
  | general
  /-- What push and pop move. -/
  | stack
  /-- The width of a pointer. -/
  | pointer
  /-- The width of addresses. -/
  | address
  /-- The width of the instruction pointer after a near branch. -/
  | branch
  /-- The same, but never more than 32 bits. -/
  | distance
  deriving DecidableEq, Repr

/-- The width that a size has under given prefixes. -/
def Size.width (s : Size) (p : Prefixes) : Width :=
  match s with
  | byte => .byte
  | word => .word
  | dword => .dword
  | qword => .qword
  | operand => p.operandWidth
  | capped => if p.operandWidth = .word then .word else .dword
  | general => if p.wide then .qword else .dword
  | stack => p.stackWidth
  | pointer => p.mode.pointerWidth
  | address => p.addressWidth
  | branch => p.branchWidth
  | distance => if p.branchWidth = .word then .word else .dword

/-- A vector width, given itself or as a part of the vector length. -/
inductive Lanes where
  | full | half | quarter | eighth
  | xmm | ymm | zmm
  deriving DecidableEq, Repr

namespace Lanes

/-- The registers that hold so many lanes; none is narrower than the narrowest. -/
def register (l : Lanes) (length : VectorWidth) : VectorWidth :=
  match l, length with
  | full, v => v
  | half, .zmm => .ymm
  | zmm, _ => .zmm
  | ymm, _ => .ymm
  | _, _ => .xmm

/-- Whether the width is a part of the vector length. -/
def isPart : Lanes → Bool
  | full | half | quarter | eighth => true
  | xmm | ymm | zmm => false

/-- The number of bytes of so many lanes. -/
def bytes (l : Lanes) (length : VectorWidth) : Nat :=
  match l with
  | full => length.bytes
  | half => length.bytes / 2
  | quarter => length.bytes / 4
  | eighth => length.bytes / 8
  | xmm => 16
  | ymm => 32
  | zmm => 64

end Lanes

/-! ## Operands -/

/-- Where an operand stands in the encoding, and what it is. -/
inductive OperandCode where
  /-- A general register or memory, by the operand byte. -/
  | rm (s : Size)
  /-- The same, where memory has a number of bytes of its own. -/
  | rmAs (s : Size) (bytes : Nat)
  /-- The same, where memory is always 16 bits wide. -/
  | rmSelector
  /-- The general register named by the middle field of the operand byte. -/
  | reg (s : Size)
  /-- The general register named by the low field of the operand byte. -/
  | base (s : Size)
  /-- The general register named by the low bits of the opcode. -/
  | low (s : Size)
  /-- The general register named by the vector prefix. -/
  | extra (s : Size)
  | accumulator (s : Size)
  | fixed (r : Register)
  /-- Memory of a number of bytes; no register can stand for it. -/
  | memory (bytes : Nat)
  /-- Memory at an address that stands alone in the encoding. -/
  | offset (s : Size)
  /-- A constant of size `encoded`, extended with its sign to size `used`. -/
  | immediate (encoded used : Size)
  /-- The constant one, which is not encoded. -/
  | one
  /-- A near branch by a displacement of the given size to an address of another one. -/
  | near (encoded target : Size)
  /-- The target of a far branch: offset, then selector. -/
  | far
  | segment
  | control
  | debug
  /-- A floating point stack register named by the low field of the operand byte. -/
  | floatStack
  | mmx
  | mmxRm
  /-- A vector register named by the middle field of the operand byte. -/
  | vector (l : Lanes)
  /-- The vector register named by the vector prefix. -/
  | vectorExtra (l : Lanes)
  /-- A vector register or memory, which may have a number of bytes of its own. -/
  | vectorRm (l : Lanes) (bytes : Option Nat)
  /-- The vector register named by the high bits of a constant. -/
  | vectorConstant (l : Lanes)
  /-- The low four bits of the constant whose high bits name a vector register. -/
  | lowBits
  /-- Memory at several addresses of elements of a number of bytes, with a vector of indices. -/
  | gather (bytes : Nat) (index : Lanes)
  | opmask
  | opmaskExtra
  | opmaskRm (bytes : Nat)
  | tile
  | tileExtra
  | tileRm
  /-- Memory whose address has to be given by a scale-index-base byte. -/
  | strided
  deriving DecidableEq, Repr

namespace OperandCode

/-- The constant of one byte. -/
def constant : OperandCode := .immediate .byte .byte

/-- Whether the operand is named by the vector prefix. -/
def isExtra : OperandCode → Bool
  | extra _ | vectorExtra _ | opmaskExtra | tileExtra => true
  | _ => false

/-- Whether the operand is as wide as the vector length says. -/
def followsLength : OperandCode → Bool
  | vector l | vectorExtra l | vectorRm l _ | vectorConstant l | gather _ l => l.isPart
  | _ => false

/-- The number of bytes of an operand in memory; zero for all other operands. -/
def memoryBytes (p : Prefixes) (length : VectorWidth) : OperandCode → Nat
  | rm s | offset s => (s.width p).bytes
  | rmAs _ bytes | memory bytes | gather bytes _ | opmaskRm bytes => bytes
  | rmSelector => 2
  | mmxRm => 8
  | vectorRm l bytes => bytes.getD (l.bytes length)
  | _ => 0

/-- The sizes in bytes of the constants that an operand is encoded with. -/
def constantBytes (p : Prefixes) : OperandCode → List Nat
  | immediate encoded _ => [(encoded.width p).bytes]
  | near encoded _ => [(encoded.width p).bytes]
  | far => [(Size.capped.width p).bytes, 2]
  | offset _ => [p.addressWidth.bytes]
  | vectorConstant _ => [1]
  | _ => []

end OperandCode

/-- What an instruction changes besides its operands. -/
inductive Implied where
  | register (g : Gpr) (s : Size)
  | named (r : Register)
  /-- The lowest byte of the register in the low field of the operand byte. -/
  | lowByte
  /-- The count register, if a repeat prefix stands before the instruction. -/
  | count
  /-- The mask of the instruction. -/
  | mask
  | stackPointer
  /-- A number of stack slots below the stack pointer. -/
  | slots (s : Size) (n : Nat)
  /-- The slots and registers that the nesting level of a stack frame asks for. -/
  | frame
  /-- The destination of a string instruction. -/
  | destination (s : Size)
  /-- A number of bytes in a segment at the address in a register. -/
  | memory (s : Option Segment) (g : Gpr) (bytes : Nat)
  /-- A number of bytes of the extra segment at the address in the first operand. -/
  | target (bytes : Nat)
  deriving DecidableEq, Repr

/-! ## Restrictions -/

/-- What the operand byte has to name. -/
inductive Place where
  | either | register | memory
  deriving DecidableEq, Repr

/-- Whether an instruction can have a mask, and what becomes of the elements left out. -/
inductive Masking where
  | never
  | merging
  | zeroing
  /-- There is no such instruction without a mask. -/
  | required
  deriving DecidableEq, Repr

/-- How far an instruction on registers can choose its way of rounding. -/
inductive RoundingChoice where
  | never
  | silent
  | any
  deriving DecidableEq, Repr

/-- Which registers of an instruction have to differ. -/
inductive Distinct where
  | free
  /-- The first operand differs from the others. -/
  | first
  | all
  deriving DecidableEq, Repr

/-! ## Spelling -/

/-- Which operands are written, and in which order. -/
inductive Arrangement where
  | plain
  | reversed
  /-- The second operand is left out if it is the first one. -/
  | merged
  /-- A constant of ten is left out. -/
  | decimal
  /-- The last operand is left out. -/
  | shorter
  /-- A register is written behind the operands. -/
  | followed (r : Register)
  /-- The stack register besides the top, and whether it is left out if it is the next one. -/
  | source (pseudo : Bool)
  | destination (pseudo : Bool)
  deriving DecidableEq, Repr

/-- The prefixes that are written as words in front, besides a lock. -/
inductive Shown where
  | none
  | addressSize
  /-- The address size, and a segment. -/
  | segment
  /-- Those of a string instruction, which may read from a segment and may stop early. -/
  | string (source stops : Bool)
  | branch
  | conditionalBranch
  | indirectBranch
  deriving DecidableEq, Repr

/-- How the instructions of a form are written. -/
structure Wording where
  mnemonic : Option String := none
  words : List Word := []
  shown : Shown := .none
  memory : MemoryWord := .implied
  address : Option Width := none
  distance : Distance := .implied
  arrangement : Arrangement := .plain
  /-- The mnemonics that stand for the values of the last constant. -/
  byConstant : List String := []
  deriving DecidableEq, Repr

/-! ## Forms -/

/-- An entry of an opcode map. -/
structure Form where
  operation : Operation
  operands : List OperandCode := []
  /-- The number of operands, from the first on, that are changed. -/
  changed : Nat := 0
  implied : List Implied := []
  flow : Flow := .next
  /-- A lock prefix is allowed if the first operand is memory. -/
  lockable : Bool := false
  /-- The repeat or operand size prefix is part of the opcode. -/
  mandatory : Bool := false
  place : Place := .either
  masking : Masking := .never
  /-- The size of one element in memory that can stand for all; zero if none can. -/
  broadcast : Nat := 0
  rounding : RoundingChoice := .never
  /-- What a displacement of one byte counts under a prefix with masks, if not the memory operand. -/
  unit : Option Nat := none
  distinct : Distinct := .free
  /-- The encoding is complete, but no instruction. -/
  reserved : Bool := false
  wording : Wording := {}
  deriving DecidableEq, Repr

namespace Form

/-- A form that is known by its name, its operands and how many of them it changes. -/
def named (name : String) (operands : List OperandCode := []) (changed : Nat := 0)
    (implied : List Implied := []) : Form where
  operation := .unmodelled name
  operands := operands
  changed := changed
  implied := implied

/-- A named form that passes control on. -/
def branching (name : String) (flow : Flow) (operands : List OperandCode := [])
    (implied : List Implied := []) : Form where
  operation := .unmodelled name
  operands := operands
  implied := implied
  flow := flow

section

variable (f : Form)

/-- The same form with its prefix as part of the opcode. -/
def withPrefix : Form := { f with mandatory := true }

/-- The same form, on registers only. -/
def onRegister : Form := { f with place := .register }

/-- The same form, on memory only. -/
def onMemory : Form := { f with place := .memory }

/-- The same form, which a lock prefix may stand before. -/
def locking : Form := { f with lockable := true }

/-- The same form, under a mask. -/
def withMask (masking : Masking := .zeroing) : Form := { f with masking }

/-- The same form, where one element in memory can stand for all. -/
def withBroadcast (bytes : Nat) : Form := { f with broadcast := bytes }

/-- The same form, which can choose its way of rounding. -/
def withRounding (rounding : RoundingChoice := .any) : Form := { f with rounding }

/-- The same form, where a displacement of one byte counts units of its own. -/
def withUnit (bytes : Nat) : Form := { f with unit := some bytes }

/-- The same form, written with the size of its memory operand. -/
def sized : Form := { f with wording := { f.wording with memory := .size } }

/-- The same form, with its operands written in some order. -/
def arranged (a : Arrangement) : Form := { f with wording := { f.wording with arrangement := a } }

/-- The same form, written with words in front. -/
def worded (words : List Word) : Form := { f with wording := { f.wording with words } }

/-- The same form, written with some of its prefixes. -/
def showing (shown : Shown) : Form := { f with wording := { f.wording with shown } }

/-- The same form, with a mnemonic of its own. -/
def called (mnemonic : String) : Form := { f with wording := { f.wording with mnemonic := some mnemonic } }

/-- The same form, with a word in front of its branch target. -/
def away (distance : Distance) : Form := { f with wording := { f.wording with distance } }

/-- The same form, with mnemonics for the values of its last constant. -/
def spelled (names : List String) : Form := { f with wording := { f.wording with byConstant := names } }

end

end Form

/-- One of three texts, by the operand width. -/
def Prefixes.byOperand (p : Prefixes) (word dword qword : String) : String :=
  match p.operandWidth with
  | .word => word
  | .qword => qword
  | _ => dword

/-- One of three texts, by the width of what push and pop move. -/
def Prefixes.byStack (p : Prefixes) (word dword qword : String) : String :=
  match p.stackWidth with
  | .word => word
  | .qword => qword
  | _ => dword

/-- The endings of the conditional instructions, by condition number. -/
def conditionSuffix (n : Fin 16) : String :=
  ["o", "no", "b", "ae", "e", "ne", "be", "a", "s", "ns", "p", "np", "l", "ge", "le", "g"].get (n.cast rfl)

end KernelOffsets.Encoding

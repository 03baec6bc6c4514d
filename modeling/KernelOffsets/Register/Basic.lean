/-
Registers by name. A general purpose register is one of sixteen numbers read
at one of four widths; four of them also have a second byte with a name of
its own. All other registers are named, but hold nothing here.
-/
import KernelOffsets.Bitness

namespace KernelOffsets

/-- The general purpose registers, in the order of their encoding. -/
inductive Gpr where
  | ax | cx | dx | bx | sp | bp | si | di
  | r8 | r9 | r10 | r11 | r12 | r13 | r14 | r15
  deriving DecidableEq, Repr

/-- Register numbers are written as literals. -/
instance neZero_sixteen : @NeZero Nat Zero.ofOfNat0 16 := ⟨Nat.succ_ne_zero 15⟩

namespace Gpr

/-- All general purpose registers, in the order of their encoding. -/
def all : List Gpr :=
  [ax, cx, dx, bx, sp, bp, si, di, r8, r9, r10, r11, r12, r13, r14, r15]

/-- The number a general purpose register is encoded with. -/
def number : Gpr → Fin 16
  | ax => 0 | cx => 1 | dx => 2 | bx => 3 | sp => 4 | bp => 5 | si => 6 | di => 7
  | r8 => 8 | r9 => 9 | r10 => 10 | r11 => 11 | r12 => 12 | r13 => 13 | r14 => 14 | r15 => 15

/-- The register with a given number. -/
def ofNumber (n : Fin 16) : Gpr :=
  all.get (n.cast rfl)

@[simp] theorem ofNumber_number (g : Gpr) : ofNumber g.number = g := by
  cases g <;> rfl

@[simp] theorem number_ofNumber (n : Fin 16) : (ofNumber n).number = n := by
  revert n; decide

theorem number_inj {g h : Gpr} (e : g.number = h.number) : g = h := by
  rw [← ofNumber_number g, e, ofNumber_number]

theorem mem_all (g : Gpr) : g ∈ all := by
  cases g <;> decide

end Gpr

/-- The widths at which a general purpose register can be named. -/
inductive Width where
  | byte | word | dword | qword
  deriving DecidableEq, Repr

namespace Width

/-- The width in bytes. -/
def bytes : Width → Nat
  | byte => 1
  | word => 2
  | dword => 4
  | qword => 8

/-- The bits that a value of this width can have. -/
def mask : Width → UInt64
  | byte => 0xff
  | word => 0xffff
  | dword => 0xffffffff
  | qword => 0xffffffffffffffff

end Width

/-- The width of a pointer. -/
def Bitness.pointerWidth : Bitness → Width
  | .x86 => .dword
  | .x64 => .qword

/-- The second lowest byte of the first four registers. -/
inductive HighByte where
  | ah | ch | dh | bh
  deriving DecidableEq, Repr

/-- The register that a high byte is part of. -/
def HighByte.owner : HighByte → Gpr
  | ah => .ax
  | ch => .cx
  | dh => .dx
  | bh => .bx

/-- The segment registers, in the order of their encoding. -/
inductive Segment where
  | es | cs | ss | ds | fs | gs
  deriving DecidableEq, Repr

/-- The widths of a vector register. -/
inductive VectorWidth where
  | xmm | ymm | zmm
  deriving DecidableEq, Repr

/-- The width in bytes. -/
def VectorWidth.bytes : VectorWidth → Nat
  | xmm => 16
  | ymm => 32
  | zmm => 64

/--
A register name. `absent` stands where an operand could name a register and
names none; it reads as zero like every register that holds nothing here.
-/
inductive Register where
  | gpr (g : Gpr) (w : Width)
  | highByte (h : HighByte)
  | segment (s : Segment)
  | instructionPointer (w : Width)
  | control (n : Nat)
  | debug (n : Nat)
  | floatStack (n : Nat)
  | mmx (n : Nat)
  | opmask (n : Nat)
  | vector (w : VectorWidth) (n : Nat)
  | tile (n : Nat)
  | absent
  deriving DecidableEq, Repr

namespace Register

/-- The general purpose register that holds the named bits, if they are held at all. -/
def gpr? : Register → Option Gpr
  | gpr g _ => some g
  | highByte h => some h.owner
  | _ => none

/-- The widest register that contains the named one. -/
def full : Register → Register
  | gpr g _ => gpr g .qword
  | highByte h => gpr h.owner .qword
  | instructionPointer _ => instructionPointer .qword
  | vector _ n => vector .zmm n
  | r => r

/-- The size of a register in bytes. -/
def bytes : Register → Nat
  | gpr _ w => w.bytes
  | highByte _ => 1
  | segment _ => 2
  | instructionPointer w => w.bytes
  | control _ => 8
  | debug _ => 8
  | floatStack _ => 10
  | mmx _ => 8
  | opmask _ => 8
  | vector w _ => w.bytes
  | tile _ => 1024
  | absent => 0

@[simp] theorem gpr?_full (r : Register) : r.full.gpr? = r.gpr? := by
  cases r <;> rfl

end Register

/-- The full width form of a general purpose register in a mode. -/
def Bitness.wide (b : Bitness) (g : Gpr) : Register :=
  .gpr g b.pointerWidth

/-- The register that points to the top of the stack. -/
def Bitness.stackPointer (b : Bitness) : Register :=
  b.wide .sp

/-- The registers that a called function may leave changed. -/
def Bitness.volatile : Bitness → List Register
  | .x86 => [.ax, .cx, .dx].map Bitness.x86.wide
  | .x64 => [.ax, .cx, .dx, .r8, .r9, .r10, .r11].map Bitness.x64.wide

/-- The registers that both modes have, named without a width. -/
inductive SharedRegister where
  | ax | cx | dx | bx | sp | bp | si | di
  deriving DecidableEq, Repr

namespace SharedRegister

/-- All shared registers, in the order of their encoding. -/
def all : List SharedRegister :=
  [ax, cx, dx, bx, sp, bp, si, di]

/-- The general purpose register behind the name. -/
def gpr : SharedRegister → Gpr
  | ax => .ax | cx => .cx | dx => .dx | bx => .bx
  | sp => .sp | bp => .bp | si => .si | di => .di

/-- The name without a width, as it is written. -/
def name : SharedRegister → String
  | ax => "Ax" | cx => "Cx" | dx => "Dx" | bx => "Bx"
  | sp => "Sp" | bp => "Bp" | si => "Si" | di => "Di"

/-- The full width register of a mode that the name stands for. -/
def within (r : SharedRegister) (b : Bitness) : Register :=
  b.wide r.gpr

end SharedRegister

end KernelOffsets

/-
The bytes before an opcode: legacy prefixes in any order and number, and in
64-bit code a REX prefix, which counts only if it stands right before the
opcode. Together with the mode they fix the operand and the address width.
-/
import KernelOffsets.Encoding.Reader
import KernelOffsets.Register.Basic

namespace KernelOffsets.Encoding

/-- The four bits of a REX prefix, or the bits with the same meaning in a vector prefix. -/
structure Rex where
  w : Bool
  r : Bool
  x : Bool
  b : Bool
  deriving DecidableEq, Repr

/-- The bits of a REX prefix byte. -/
def Rex.ofByte (byte : UInt8) : Rex :=
  ⟨byte &&& 8 != 0, byte &&& 4 != 0, byte &&& 2 != 0, byte &&& 1 != 0⟩

/-- The two repeat prefixes. -/
inductive Repetition where
  | whileEqual
  | whileNotEqual
  deriving DecidableEq, Repr

/-- The fields of a vector prefix that are not REX bits. -/
structure VectorFields where
  /-- The two length bits. -/
  length : Nat
  /-- The register named beside those of the operand byte; zero if none is. -/
  extra : Nat
  /-- The prefix has mask fields; the ones below are zero where it has none. -/
  maskable : Bool := false
  opmask : Nat := 0
  zeroing : Bool := false
  /-- One element in memory is used for all, or registers are rounded in a way of their own. -/
  special : Bool := false
  /-- The fifth bits of the register and of the index number. -/
  highReg : Bool := false
  highIndex : Bool := false
  deriving DecidableEq, Repr

/-- What stands before an opcode. -/
structure Prefixes where
  mode : Bitness
  operandSize : Bool := false
  addressSize : Bool := false
  lock : Bool := false
  /-- The last repeat prefix. -/
  repetition : Option Repetition := none
  segment : Option Segment := none
  rex : Option Rex := none
  vector : Option VectorFields := none
  deriving DecidableEq, Repr

namespace Prefixes

/--
A segment override. In 64-bit code the first four segments start at zero, and
an override of theirs does not replace one of the other two.
-/
def override (p : Prefixes) (s : Segment) : Prefixes :=
  let kept := match p.mode, s, p.segment with
    | .x64, .fs, _ | .x64, .gs, _ => false
    | .x64, _, some .fs | .x64, _, some .gs => true
    | _, _, _ => false
  { p with segment := if kept then p.segment else some s, rex := none }

/-- The prefixes with one more byte, if it is a prefix. -/
def extend? (p : Prefixes) (byte : UInt8) : Option Prefixes :=
  match byte with
  | 0x26 => some (p.override .es)
  | 0x2e => some (p.override .cs)
  | 0x36 => some (p.override .ss)
  | 0x3e => some (p.override .ds)
  | 0x64 => some (p.override .fs)
  | 0x65 => some (p.override .gs)
  | 0x66 => some { p with operandSize := true, rex := none }
  | 0x67 => some { p with addressSize := true, rex := none }
  | 0xf0 => some { p with lock := true, rex := none }
  | 0xf2 => some { p with repetition := some .whileNotEqual, rex := none }
  | 0xf3 => some { p with repetition := some .whileEqual, rex := none }
  | _ => if p.mode == .x64 && byte &&& 0xf0 == 0x40 then some { p with rex := some (.ofByte byte) } else none

/-- Takes all prefixes and the byte after them. -/
def take : Prefixes → List UInt8 → Option ((Prefixes × UInt8) × List UInt8)
  | _, [] => none
  | p, b :: rest =>
    match p.extend? b with
    | some q => take q rest
    | none => some ((p, b), rest)

/-- Reads all prefixes and the byte after them. -/
def read (mode : Bitness) : Reader (Prefixes × UInt8) :=
  take { mode }

theorem stable_take (p : Prefixes) : Reader.Stable p.take := by
  intro bytes a rest h
  induction bytes generalizing p with
  | nil => cases h
  | cons b tail ih =>
    simp only [take] at h
    cases e : p.extend? b with
    | some q =>
      rw [e] at h
      obtain ⟨taken, rfl, htaken⟩ := ih q h
      refine ⟨b :: taken, rfl, fun more => ?_⟩
      simp only [List.cons_append, take, e, htaken]
    | none =>
      rw [e] at h
      cases h
      exact ⟨[b], rfl, fun more => by simp only [List.cons_append, List.nil_append, take, e]⟩

theorem stable_read (mode : Bitness) : Reader.Stable (read mode) :=
  stable_take { mode }

/-- Whether a high register or index bit is set; false without a REX prefix. -/
def rexBit (p : Prefixes) (bit : Rex → Bool) : Bool :=
  match p.rex with
  | some rex => bit rex
  | none => false

/-- Whether 64-bit operands are asked for; 32-bit code has none. -/
def wide (p : Prefixes) : Bool :=
  p.mode == .x64 && p.rexBit (·.w)

/-- The width of operands that follow the operand size. -/
def operandWidth (p : Prefixes) : Width :=
  if p.wide then .qword else if p.operandSize then .word else .dword

/-- The width of addresses. -/
def addressWidth (p : Prefixes) : Width :=
  match p.mode, p.addressSize with
  | .x86, false => .dword
  | .x86, true => .word
  | .x64, false => .qword
  | .x64, true => .dword

/-- The width of what push and pop move. -/
def stackWidth (p : Prefixes) : Width :=
  if p.operandSize && !p.wide then .word else p.mode.pointerWidth

/-- The width at which the instruction pointer is cut after a near branch. -/
def branchWidth (p : Prefixes) : Width :=
  match p.mode with
  | .x64 => .qword
  | .x86 => if p.operandSize then .word else .dword

/-- The prefix that can be part of an opcode; a repeat prefix goes before the operand size. -/
inductive Mandatory where
  | none
  | operandSize
  | whileEqual
  | whileNotEqual
  deriving DecidableEq, Repr

/-- The prefix that selects among the instructions of one opcode. -/
def mandatory (p : Prefixes) : Mandatory :=
  match p.repetition with
  | some .whileEqual => .whileEqual
  | some .whileNotEqual => .whileNotEqual
  | Option.none => if p.operandSize then .operandSize else .none

end Prefixes

end KernelOffsets.Encoding

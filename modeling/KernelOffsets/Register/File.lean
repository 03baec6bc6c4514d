/-
The register file: a value and a written mark for each general purpose
register. Reads and writes follow the processor's rules for partial
registers: a 32-bit write clears the upper half, narrower writes merge.
A register keeps its relation to the base only through names at least as
wide as a pointer.
-/
import KernelOffsets.Register.Basic
import KernelOffsets.Value

namespace KernelOffsets

/-- The general purpose registers of a machine. -/
structure RegisterFile where
  bitness : Bitness
  values : Vector Value 16
  /-- The registers written since the marks were last cleared. -/
  written : Vector Bool 16

namespace RegisterFile

/-- The whole value of a register, whatever the mode. -/
def value (f : RegisterFile) (g : Gpr) : Value :=
  f.values[g.number]

/-- Replaces the whole value of a register and marks it as written. -/
def put (f : RegisterFile) (g : Gpr) (v : Value) : RegisterFile :=
  { f with values := f.values.set g.number v, written := f.written.set g.number true }

/-- Whether the whole register or a part of it was written. -/
def hasWritten (f : RegisterFile) (g : Gpr) : Bool :=
  f.written[g.number]

/-- Clears all written marks. -/
def clearWritten (f : RegisterFile) : RegisterFile :=
  { f with written := .replicate 16 false }

/-- The value read through a name; a register that is not modelled reads as plain zero. -/
def read (f : RegisterFile) : Register → Value
  | .gpr g w =>
    ⟨(f.value g).bits &&& w.mask, (f.value g).based && decide (f.bitness.pointerBytes ≤ w.bytes)⟩
  | .highByte h => .plain (((f.value h.owner).bits >>> 8) &&& 0xff)
  | _ => .plain 0

/-- What a register holds after a write of `v` at width `w` over `old`. -/
def merge (b : Bitness) (w : Width) (old v : Value) : Value :=
  match w with
  | .byte | .word => .plain ((old.bits &&& ~~~ w.mask) ||| (v.bits &&& w.mask))
  | .dword | .qword => ⟨v.bits &&& w.mask, v.based && decide (b.pointerBytes ≤ w.bytes)⟩

/-- Writes through a name; a register that is not modelled stays as it is. -/
def write (f : RegisterFile) (r : Register) (v : Value) : RegisterFile :=
  match r with
  | .gpr g w => f.put g (merge f.bitness w (f.value g) v)
  | .highByte h =>
    f.put h.owner
      (.plain (((f.value h.owner).bits &&& ~~~ (0xff00 : UInt64)) ||| ((v.bits &&& 0xff) <<< 8)))
  | _ => f

/-- Whether the register behind a name was written. -/
def wasWritten (f : RegisterFile) (r : Register) : Bool :=
  match r.gpr? with
  | some g => f.hasWritten g
  | none => false

/-- Writes a plain word. -/
def set (f : RegisterFile) (r : Register) (bits : UInt64) : RegisterFile :=
  f.write r (.plain bits)

/-- Writes a base that later arithmetic is tracked against. -/
def inject (f : RegisterFile) (r : Register) (bits : UInt64) : RegisterFile :=
  f.write r (.onBase bits)

/-- Forgets what a register holds. -/
def clobber (f : RegisterFile) (r : Register) : RegisterFile :=
  f.set r 0

/-- All registers zero but the stack pointer, nothing written. -/
def initial (b : Bitness) (stackTop : UInt64) : RegisterFile :=
  let zero : RegisterFile := ⟨b, .replicate 16 (.plain 0), .replicate 16 false⟩
  (zero.set b.stackPointer stackTop).clearWritten

/-! ## How the operations look through `value` and `hasWritten` -/

theorem value_put (f : RegisterFile) (g h : Gpr) (v : Value) :
    (f.put g v).value h = if g = h then v else f.value h := by
  unfold put value
  by_cases e : g = h
  · subst e; simp
  · have : ¬ (g.number : Nat) = h.number := fun e' => e (Gpr.number_inj (Fin.ext e'))
    simp [e, this]

theorem hasWritten_put (f : RegisterFile) (g h : Gpr) (v : Value) :
    (f.put g v).hasWritten h = (decide (g = h) || f.hasWritten h) := by
  unfold put hasWritten
  by_cases e : g = h
  · subst e; simp
  · have : ¬ (g.number : Nat) = h.number := fun e' => e (Gpr.number_inj (Fin.ext e'))
    simp [e, this]

@[simp] theorem bitness_put (f : RegisterFile) (g : Gpr) (v : Value) :
    (f.put g v).bitness = f.bitness := rfl

@[simp] theorem bitness_write (f : RegisterFile) (r : Register) (v : Value) :
    (f.write r v).bitness = f.bitness := by
  cases r <;> rfl

@[simp] theorem value_clearWritten (f : RegisterFile) (g : Gpr) :
    f.clearWritten.value g = f.value g := rfl

@[simp] theorem hasWritten_clearWritten (f : RegisterFile) (g : Gpr) :
    f.clearWritten.hasWritten g = false := by
  simp [hasWritten, clearWritten]

end RegisterFile

end KernelOffsets

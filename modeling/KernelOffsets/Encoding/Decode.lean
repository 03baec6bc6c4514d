/-
Decoding: the instruction at the front of some bytes, and all instructions
from the first to the last byte. A sweep is one instruction followed by the
sweep of the rest (`sweep_cons`).
-/
import KernelOffsets.Encoding.Spelling

namespace KernelOffsets.Encoding

/-- The instruction of an encoding of `length` bytes at an address. -/
def instruction (e : Encoding) (ip : UInt64) (length : Nat) : Instruction :=
  let operands := e.operands (ip + length.toUInt64)
  let changed := operands.take e.form.changed
  if e.isLegal operands then
    { bitness := e.prefixes.mode
      ip
      length
      operation := e.form.operation
      flow := e.form.flow
      operands
      changes := (registersOf changed ++ e.form.implied.flatMap e.impliedRegisters).map e.widened
      stores := memoryOf changed ++ e.form.implied.flatMap e.impliedStores
      repeated := e.repeated
      stackBytes := e.stackBytes
      spelling := e.spelling operands }
  else .undecodable e.prefixes.mode ip length

/-- The largest number of bytes of an instruction. -/
def maxLength : Nat := 15

/-- The instruction at the front of some bytes that stand at an address. -/
def decode (mode : Bitness) (ip : UInt64) (bytes : List UInt8) : Instruction :=
  let window := bytes.take maxLength
  match read mode window with
  | none => .undecodable mode ip window.length
  | some (none, rest) => .undecodable mode ip (window.length - rest.length)
  | some (some e, rest) => e.instruction ip (window.length - rest.length)

/-- Decodes from the first to the last byte, one instruction after the other. -/
def sweep (mode : Bitness) (ip : UInt64) (bytes : List UInt8) : List Instruction :=
  go ip bytes #[]
where
  /-- Adds the instructions of the remaining bytes to those already found. -/
  go (ip : UInt64) (bytes : List UInt8) (found : Array Instruction) : List Instruction :=
    match bytes with
    | [] => found.toList
    | b :: rest =>
      let i := decode mode ip (b :: rest)
      go i.nextIp (rest.drop (i.length - 1)) (found.push i)
  termination_by bytes.length
  decreasing_by simp only [List.length_drop, List.length_cons]; omega

theorem sweep.go_eq (mode : Bitness) (ip : UInt64) (bytes : List UInt8) (found : Array Instruction) :
    sweep.go mode ip bytes found = found.toList ++ sweep mode ip bytes := by
  induction hn : bytes.length using Nat.strongRecOn generalizing ip bytes found with
  | ind n ih =>
    subst hn
    unfold sweep
    cases bytes with
    | nil => simp [sweep.go]
    | cons b rest =>
      rw [sweep.go, sweep.go]
      have hlt : (rest.drop ((decode mode ip (b :: rest)).length - 1)).length < (b :: rest).length := by
        simp only [List.length_drop, List.length_cons]; omega
      rw [ih _ hlt _ _ _ rfl, ih _ hlt _ _ _ rfl]
      simp

@[simp] theorem sweep_nil (mode : Bitness) (ip : UInt64) : sweep mode ip [] = [] := by
  simp [sweep, sweep.go]

/-- **A sweep is its first instruction followed by the sweep of the rest.** -/
theorem sweep_cons (mode : Bitness) (ip : UInt64) (b : UInt8) (rest : List UInt8) :
    let i := decode mode ip (b :: rest)
    sweep mode ip (b :: rest) = i :: sweep mode i.nextIp (rest.drop (i.length - 1)) := by
  intro i
  conv => lhs; unfold sweep
  rw [sweep.go, sweep.go_eq]
  simp [i]

end KernelOffsets.Encoding

/-
Where the words of a replay come from, whatever base is injected. A lineage
replays the same instructions as the machine without knowing the base: of
each register and of each pointer-sized slot of memory it tells whether it is
the base plus a distance, a constant, or a mixture of which nothing is said.
The base is mixed by everything but moves and the addition or subtraction of
constants: by cutting, scaling, negating or masking it, by adding it to
itself, and by reading or writing memory through it.
-/
import KernelOffsets.Machine.Step
import KernelOffsets.Proofs.Memory

namespace KernelOffsets

/-- What is known of a word and of its mark as base relative. -/
inductive Origin where
  /-- It is the base plus a distance, and it is marked. -/
  | base (distance : UInt64)
  /-- If it is marked, it is the base plus a distance. -/
  | perhaps (distance : UInt64)
  /-- It is a constant, and it is not marked. -/
  | constant (bits : UInt64)
  /-- Nothing. -/
  | mixed
  deriving DecidableEq, Repr

namespace Origin

/-- The sum of two words. -/
def add : Origin → Origin → Origin
  | constant x, constant y => constant (x + y)
  | base k, constant x | constant x, base k => base (k + x)
  | perhaps k, constant x | constant x, perhaps k => perhaps (k + x)
  | _, _ => mixed

/-- The difference of two words. -/
def sub : Origin → Origin → Origin
  | constant x, constant y => constant (x - y)
  | base k, constant x => base (k - x)
  | perhaps k, constant x => perhaps (k - x)
  | base k, base l => constant (k - l)
  | _, _ => mixed

/-- A word that is computed from another one and never marked. -/
def map (f : UInt64 → UInt64) : Origin → Origin
  | constant x => constant (f x)
  | _ => mixed

/-- A word that is computed from two others and never marked. -/
def map₂ (f : UInt64 → UInt64 → UInt64) : Origin → Origin → Origin
  | constant x, constant y => constant (f x y)
  | _, _ => mixed

/-- A register read or overwritten at a width; the base is cut by a width below a pointer's. -/
def atWidth (b : Bitness) (w : Width) : Origin → Origin
  | constant x => constant (x &&& w.mask)
  | o => if b.pointerBytes ≤ w.bytes then o else mixed

/-- What a register holds after a write at a width over an old word. -/
def merge (b : Bitness) (w : Width) (old o : Origin) : Origin :=
  match w with
  | .byte | .word => .map₂ (fun x y => (x &&& ~~~ w.mask) ||| (y &&& w.mask)) old o
  | .dword | .qword => o.atWidth b w

/-- What is still known of a pointer that may have been overwritten by unmarked bytes. -/
def weaken : Origin → Origin
  | base k | perhaps k => perhaps k
  | _ => mixed

/-- Whether it is a constant. -/
def isConstant : Origin → Bool
  | constant _ => true
  | _ => false

/-- A byte of the word in memory, if it is the same for every base. -/
def byte? (b : Bitness) (i : Nat) : Origin → Option UInt8
  | constant x => if i < b.pointerBytes ∨ 8 ≤ i then some (Memory.wordByte x i) else none
  | _ => none

end Origin

/-- What is known of a machine, whatever the base. -/
structure Lineage where
  bitness : Bitness
  registers : Gpr → Origin
  /-- The registers written so far. -/
  written : Gpr → Bool
  /-- The bytes of memory that are the same for every base. -/
  bytes : UInt64 → Option UInt8
  /-- The addresses at which a pointer may be spilled, with what is known of it. -/
  slots : UInt64 → Option Origin

namespace Lineage

/-- The start of a replay: the base in one register, the stack pointer, and zero elsewhere. -/
def initial (image : Image) (stackTop : UInt64) (injected : Gpr) : Lineage where
  bitness := image.bitness
  registers g := if g = injected then .base 0 else if g = .sp then .constant stackTop else .constant 0
  written _ := false
  bytes a := some ((image.byte? a).getD 0)
  slots _ := none

variable (σ : Lineage)

/-! ## Registers -/

/-- Replaces what is known of a register. -/
def put (g : Gpr) (o : Origin) : Lineage :=
  { σ with
    registers := fun h => if g = h then o else σ.registers h
    written := fun h => decide (g = h) || σ.written h }

/-- The word read through a name. -/
def read : Register → Origin
  | .gpr g w => (σ.registers g).atWidth σ.bitness w
  | .highByte h => (σ.registers h.owner).map fun x => (x >>> 8) &&& 0xff
  | _ => .constant 0

/-- A write through a name. -/
def write (r : Register) (o : Origin) : Lineage :=
  match r with
  | .gpr g w => σ.put g (.merge σ.bitness w (σ.registers g) o)
  | .highByte h =>
    σ.put h.owner
      (.map₂ (fun x y => (x &&& ~~~ (0xff00 : UInt64)) ||| ((y &&& 0xff) <<< 8)) (σ.registers h.owner) o)
  | _ => σ

@[simp] theorem bitness_write (r : Register) (o : Origin) : (σ.write r o).bitness = σ.bitness := by
  cases r <;> rfl

/-! ## Memory -/

/-- A register times a scale. -/
def scaled (r : Register) (scale : UInt64) : Origin :=
  if scale = 1 then σ.read r else (σ.read r).map (· * scale)

/-- The address that an instruction uses. -/
def address (o : MemoryOperand) : Origin :=
  match o.base with
  | .instructionPointer _ => .constant o.displacement
  | base => ((Origin.constant o.displacement).add (σ.read base)).add (σ.scaled o.index o.scale)

/-- The word of the bytes from an address on, if all of them are known. -/
def wordAt? (a : UInt64) : Nat → Option UInt64
  | 0 => some 0
  | n + 1 =>
    match σ.bytes (a &&& σ.bitness.addressMask), wordAt? (a + 1) n with
    | some low, some high => some (low.toUInt64 ||| (high <<< 8))
    | _, _ => none

/-- A load of plain bytes. -/
def loadBytes (a : UInt64) (n : Nat) : Origin :=
  match σ.wordAt? a (min n 8) with
  | some x => .constant x
  | none => .mixed

/-- A load from a constant address. -/
def loadAt (a : UInt64) (n : Nat) : Origin :=
  if n = σ.bitness.pointerBytes then
    (σ.slots (a &&& σ.bitness.addressMask)).getD (σ.loadBytes a n)
  else σ.loadBytes a n

/-- A load; nothing is known of what lies at an address that is not constant. -/
def load : Origin → Nat → Origin
  | .constant a, n => σ.loadAt a n
  | _, _ => .mixed

/-- A store at a constant address. -/
def storeAt (a : UInt64) (n : Nat) (o : Origin) : Lineage :=
  let b := σ.bitness
  { σ with
    bytes := fun x => if b.past a x < n then o.byte? b (b.past a x) else σ.bytes x
    slots := fun x =>
      if n = b.pointerBytes ∧ x = a &&& b.addressMask ∧ !o.isConstant then some o
      else if b.meets a n x then none
      else σ.slots x }

/-- A store that can be anywhere. -/
def scatter (n : Nat) (o : Origin) : Lineage :=
  { σ with
    bytes := fun _ => none
    slots := fun x =>
      if n = σ.bitness.pointerBytes ∧ !o.isConstant then some .mixed else (σ.slots x).map .weaken }

/-- A store. -/
def store : Origin → Nat → Origin → Lineage
  | .constant a, n, o => if n ≤ σ.bitness.addresses then σ.storeAt a n o else σ.scatter n o
  | _, n, o => σ.scatter n o

@[simp] theorem bitness_store (a : Origin) (n : Nat) (o : Origin) : (σ.store a n o).bitness = σ.bitness := by
  cases a with
  | constant c => simp only [store]; split <;> rfl
  | _ => rfl

/-- No pointer is spilled any more. -/
def forgetSpills : Lineage := { σ with slots := fun _ => none }

/-! ## Operands -/

/-- The word of an operand. -/
def fetch : Operand → Origin
  | .register r => σ.read r
  | .memory o => σ.load (σ.address o) o.size
  | .immediate bits _ => .constant bits
  | _ => .constant 0

/-- Replaces the word of an operand. -/
def assign (o : Operand) (v : Origin) : Lineage :=
  match o with
  | .register r => σ.write r v
  | .memory o => σ.store (σ.address o) o.size v
  | _ => σ

@[simp] theorem bitness_assign (o : Operand) (v : Origin) : (σ.assign o v).bitness = σ.bitness := by
  cases o <;> simp [assign]

/-- The size at which an operand is read. -/
def operandBytes : Operand → Nat
  | .register r => r.bytes
  | .memory o => o.size
  | _ => σ.bitness.pointerBytes

/-- The word of an operand shifted by another one, for the sizes that operands have. -/
def shift (i : Instruction) (f : Nat → UInt64 → UInt64 → UInt64) : Origin :=
  let n := σ.operandBytes i.first
  if n ∈ [1, 2, 4, σ.bitness.pointerBytes] then .map₂ (f n) (σ.fetch i.first) (σ.fetch i.second)
  else .mixed

/-! ## Instructions -/

/-- The stack pointer. -/
def stackTop : Origin := σ.read σ.bitness.stackPointer

/-- Moves the stack pointer. -/
def setStackTop (o : Origin) : Lineage :=
  σ.write σ.bitness.stackPointer (o.map (· &&& σ.bitness.addressMask))

@[simp] theorem bitness_setStackTop (o : Origin) : (σ.setStackTop o).bitness = σ.bitness := rfl

/-- The operand is read before the stack pointer moves. -/
def push (i : Instruction) : Lineage :=
  let v := σ.fetch i.first
  let σ := σ.setStackTop (σ.stackTop.map (· - i.stackBytes.toUInt64))
  σ.store σ.stackTop i.stackBytes v

/-- The operand is written after the stack pointer has moved. -/
def pop (i : Instruction) : Lineage :=
  let v := σ.load σ.stackTop i.stackBytes
  let σ := σ.setStackTop (σ.stackTop.map (· + i.stackBytes.toUInt64))
  σ.assign i.first v

/-- Both operands are read before either is written. -/
def exchange (i : Instruction) : Lineage :=
  (σ.assign i.first (σ.fetch i.second)).assign i.second (σ.fetch i.first)

/-- A register is zero from now on. -/
def clobber (r : Register) : Lineage := σ.write r (.constant 0)

/-- What a register adds to an address, if its value is held or it adds nothing. -/
def known? (r : Register) : Option Origin :=
  match r with
  | .absent => some (.constant 0)
  | r => r.gpr?.map fun _ => σ.read r

/-- The address of a reference, if the values of all its registers are held. -/
def knownAddress? (o : MemoryOperand) : Option Origin := do
  if o.segment.isThreadSegment then none
  else
    let base ← match o.base with
      | .instructionPointer _ => some (.constant 0)
      | base => σ.known? base
    let index ← σ.known? o.index
    return ((Origin.constant o.displacement).add base).add (index.map (· * o.scale))

/-- A store of unknown content. -/
def storeUnknown (σ : Lineage) : Option Origin × Nat → Lineage
  | (some address, n + 1) => σ.store address (n + 1) (.constant 0)
  | _ => σ.forgetSpills

/-- What an instruction without a rule may change. -/
def forget (i : Instruction) : Lineage :=
  let stores := i.stores.map fun o => (σ.knownAddress? o, o.size)
  let cleared := if i.repeated then σ.forgetSpills else σ
  i.changes.foldl clobber (stores.foldl storeUnknown cleared)

/-- An instruction without a rule of its own. -/
def stepOther (i : Instruction) : Lineage :=
  match i.flow with
  | .call | .indirectCall => σ.bitness.volatile.foldl clobber σ
  | .conditionalBranch | .unconditionalBranch | .indirectBranch => σ
  | _ => σ.forget i

/-- What is known after one instruction. -/
def step (i : Instruction) : Lineage :=
  match i.operation with
  | .mov => σ.assign i.first (σ.fetch i.second)
  | .movzx => σ.assign i.first ((σ.fetch i.second).map id)
  | .movsx | .movsxd => σ.assign i.first ((σ.fetch i.second).map (signExtend (σ.operandBytes i.second)))
  | .lea =>
    match i.second with
    | .memory o => σ.assign i.first (σ.address o)
    | _ => σ
  | .add => σ.assign i.first ((σ.fetch i.first).add (σ.fetch i.second))
  | .sub =>
    σ.assign i.first (if i.isOnItself then .constant 0 else (σ.fetch i.first).sub (σ.fetch i.second))
  | .and => σ.assign i.first (.map₂ (· &&& ·) (σ.fetch i.first) (σ.fetch i.second))
  | .or => σ.assign i.first (.map₂ (· ||| ·) (σ.fetch i.first) (σ.fetch i.second))
  | .xor =>
    σ.assign i.first
      (if i.isOnItself then .constant 0 else .map₂ (· ^^^ ·) (σ.fetch i.first) (σ.fetch i.second))
  | .shl => σ.assign i.first (σ.shift i fun n x c => x <<< Machine.shiftCount n c)
  | .shr => σ.assign i.first (σ.shift i fun n x c => lowBytes n x >>> Machine.shiftCount n c)
  | .sar =>
    σ.assign i.first (σ.shift i fun n x c => Machine.shiftSigned (signExtend n x) (Machine.shiftCount n c))
  | .inc => σ.assign i.first ((σ.fetch i.first).add (.constant 1))
  | .dec => σ.assign i.first ((σ.fetch i.first).sub (.constant 1))
  | .neg => σ.assign i.first ((σ.fetch i.first).map (0 - ·))
  | .not => σ.assign i.first ((σ.fetch i.first).map (~~~ ·))
  | .push => σ.push i
  | .pop => σ.pop i
  | .xchg => σ.exchange i
  | .nop | .cmp | .test | .bt => σ
  | .invalid | .unmodelled _ => σ.stepOther i

/-- What is known after the instructions of a path. -/
def run (path : List Instruction) : Lineage := path.foldl step σ

/-! ## The mode never changes -/

theorem bitness_clobberAll (rs : List Register) : (rs.foldl clobber σ).bitness = σ.bitness := by
  induction rs generalizing σ with
  | nil => rfl
  | cons r rs ih => exact (ih (σ.clobber r)).trans (σ.bitness_write r _)

theorem bitness_storeUnknown (p : Option Origin × Nat) : (σ.storeUnknown p).bitness = σ.bitness := by
  obtain ⟨a, n⟩ := p
  cases a with
  | none => rfl
  | some a =>
    cases n with
    | zero => rfl
    | succ n => exact σ.bitness_store a (n + 1) _

theorem bitness_storeAll (ps : List (Option Origin × Nat)) : (ps.foldl storeUnknown σ).bitness = σ.bitness := by
  induction ps generalizing σ with
  | nil => rfl
  | cons p ps ih => exact (ih (σ.storeUnknown p)).trans (σ.bitness_storeUnknown p)

theorem bitness_forget (i : Instruction) : (σ.forget i).bitness = σ.bitness := by
  rw [forget, bitness_clobberAll, bitness_storeAll]
  cases i.repeated <;> rfl

theorem bitness_stepOther (i : Instruction) : (σ.stepOther i).bitness = σ.bitness := by
  unfold stepOther
  cases i.flow with
  | call | indirectCall => exact σ.bitness_clobberAll _
  | conditionalBranch | unconditionalBranch | indirectBranch => rfl
  | _ => exact σ.bitness_forget i

@[simp] theorem bitness_step (i : Instruction) : (σ.step i).bitness = σ.bitness := by
  unfold step
  cases i.operation with
  | lea => cases i.second <;> simp
  | invalid | unmodelled name => exact σ.bitness_stepOther i
  | _ => simp [push, pop, exchange]

@[simp] theorem bitness_run (path : List Instruction) : (σ.run path).bitness = σ.bitness := by
  induction path generalizing σ with
  | nil => rfl
  | cons i path ih => exact (ih (σ.step i)).trans (σ.bitness_step i)

end Lineage

end KernelOffsets

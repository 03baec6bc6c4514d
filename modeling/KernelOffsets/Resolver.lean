/-
Finding the offset of a structure field. The function that passes the field
on is replayed from its entry up to the call, with a base in the register
that holds the structure on entry; how far the register has moved past the
base at the call is the offset. An answer is given only if the register was
written and still points relative to the base, not below it.
-/
import KernelOffsets.ControlFlow.CallSite
import KernelOffsets.Layout
import KernelOffsets.Machine.Events
import KernelOffsets.Machine.Replay

namespace KernelOffsets

/-- The settings of a search for offsets. -/
structure Settings where
  /-- The base; low enough to be no kernel address and no stack address. -/
  sentinel : UInt64 := 0x1000
  /-- The number of bytes decoded of a function without unwind data. -/
  scanWindow : Nat := 4096
  /-- The number of instructions that may be replayed. -/
  maxInstructions : Nat := 10000
  /-- The stack pointer on entry. -/
  stackTop : UInt64 := 0x800000
  deriving DecidableEq, Repr

/-- What offsets are found in. -/
structure Resolver where
  image : Image
  symbols : SymbolSource
  settings : Settings := {}

/-- A replay up to a call: what was observed on the way, and the offset or why there is none. -/
structure Tracking (α : Type) where
  seen : Array α
  offset : Except Failure UInt64

namespace Resolver

/-- Why a replay that reached its end gives no offset, or the value of the register. -/
def pointerAt (call base : UInt64) (r : Register) (f : RegisterFile) : Except Failure UInt64 :=
  let v := f.read r
  if !f.wasWritten r then .error (.divergence call (.registerNotWritten r))
  else if !v.based then .error (.divergence call (.notBaseRelative r))
  else if v.bits < base then .error (.divergence call (.negativeOffset r))
  else .ok v.bits

/-- The value of the register after a replay. -/
def pointerAfter {α : Type} (call base : UInt64) (r : Register) (replay : Replay α) :
    Except Failure UInt64 :=
  match replay.stop with
  | some stop => .error (.divergence stop.address stop.reason)
  | none => pointerAt call base r replay.machine.registers

/-- The machine at the entry of the anchor. -/
def machineAt (s : Resolver) (r : Register) : Machine :=
  (Machine.initial s.image s.settings.stackTop).prepare (·.inject r s.settings.sentinel)

/--
Follows a register from the entry of `anchor` to its call of `target`.
Before each instruction `observe` gives an observation and what is reported.
-/
def track {α : Type} (s : Resolver) (anchor target : String) (register : SharedRegister)
    (observe : Instruction → Machine → α × List Event) : Logged (Tracking α) := do
  let (site, flow) ← s.image.locateCall s.symbols anchor target s.settings.scanWindow
  let r := register.within s.image.bitness
  let path ← Logged.require (← flow.route site.call) (.divergence site.call .unreachable)
  Logged.note (.replaying path.instructions.length flow.blocks.length site.call)
  Logged.note (.injecting r)
  let replay := (s.machineAt r).replay observe s.settings.maxInstructions path.instructions
  Logged.report (replay.seen.toList.flatMap (·.2))
  let seen := replay.seen.map (·.1)
  match pointerAfter site.call s.settings.sentinel r replay with
  | .error e => return ⟨seen, .error e⟩
  | .ok value =>
    let offset := value - s.settings.sentinel
    Logged.note (.offsetFound r site.call value offset)
    return ⟨seen, .ok offset⟩

/-- Follows a register and reports every instruction. -/
def emulatedOffset (s : Resolver) (anchor target : String) (register : SharedRegister) : Logged UInt64 := do
  let tracking ← s.track anchor target register fun i m => ((), .executing i :: m.events i)
  Logged.ofExcept tracking.offset

/-- Follows a register and shows it, before each instruction, with the address of the instruction. -/
def observedOffset (s : Resolver) (anchor target : String) (register : SharedRegister) :
    Logged (Tracking (UInt64 × Value)) :=
  let r := register.within s.image.bitness
  s.track anchor target register fun i m => ((i.ip, m.registers.read r), m.events i)

/-- The offset of a field. -/
def fieldOffset (s : Resolver) (f : Field) : Logged UInt64 :=
  match f.discovery with
  | .constant offset => pure offset
  | .emulated anchor target register => s.emulatedOffset anchor target register

/-- The offsets of fields of a structure, up to the first that is not found. -/
def offsetsOf (s : Resolver) (owner : String) : List Field → Logged (List (String × UInt64))
  | [] => pure []
  | f :: rest => do
    let offset ← s.fieldOffset f
    Logged.note (.fieldFound owner f.name offset)
    return (f.name, offset) :: (← s.offsetsOf owner rest)

/-- The offsets of all fields of a structure. -/
def structureOffsets (s : Resolver) (layout : StructureLayout) : Logged (List (String × UInt64)) :=
  s.offsetsOf layout.name layout.fields

end Resolver

end KernelOffsets

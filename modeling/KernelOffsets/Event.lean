/-
What the library reports while it works. An event is a fact; its level and
its wording follow from it, and whoever reads the events chooses the levels
to show.
-/
import KernelOffsets.Instruction.Assembly

namespace KernelOffsets

/-- How important an event is, the most important first. -/
inductive Level where
  | error | warn | info | debug | trace
  deriving DecidableEq, Repr

namespace Level

/-- The position of a level; a reader of one level sees all before it. -/
def rank : Level → Nat
  | error => 1 | warn => 2 | info => 3 | debug => 4 | trace => 5

/-- The name of a level. -/
def name : Level → String
  | error => "ERROR" | warn => "WARN" | info => "INFO" | debug => "DEBUG" | trace => "TRACE"

end Level

/-- A fact worth reporting. -/
inductive Event where
  /-- A file was mapped. -/
  | mapped (b : Bitness) (base : UInt64) (size sections : Nat)
  /-- An image was read out of memory. -/
  | readImage (b : Bitness) (base : UInt64) (size : Nat)
  | extentsFound (count : Nat)
  | extentsOutside (rva size : Nat)
  | exportsFound (count : Nat)
  | symbolsFound (count : Nat)
  | resolved (anchor : String) (function : UInt64) (target : String) (callee : UInt64)
  | blocksFound (count : Nat) (entry : UInt64)
  | callFound (address : UInt64)
  | pathFound (target : UInt64) (blocks : List UInt64)
  | replaying (instructions blocks : Nat) (call : UInt64)
  | injecting (r : Register)
  | executing (i : Instruction)
  | skippingCall (address : UInt64)
  | unmodelled (o : Operation) (address : UInt64)
  | repeatedStore (address : UInt64)
  | untrackedStore (address : UInt64)
  | offsetFound (r : Register) (call value offset : UInt64)
  | fieldFound (owner field : String) (offset : UInt64)
  | structureFound (name : String) (b : Bitness)
  | memberFound (field : String) (offset : UInt64)

namespace Event

/-- The level of an event. -/
def level : Event → Level
  | extentsOutside .. => .warn
  | fieldFound .. | structureFound .. | memberFound .. => .info
  | extentsFound .. | blocksFound .. | pathFound .. | executing .. | unmodelled .. => .trace
  | _ => .debug

/-- Addresses in hexadecimal between brackets. -/
def addresses (l : List UInt64) : String :=
  "[" ++ ", ".intercalate (l.map fun a => Text.hex a.toNat) ++ "]"

/-- The wording of an event. -/
def message : Event → String
  | mapped b base size sections =>
    "mapped " ++ b.name ++ " image at " ++ Text.hex base.toNat ++ " (" ++ Text.hex size ++ " bytes, "
      ++ toString sections ++ " sections)"
  | readImage b base size =>
    "read " ++ b.name ++ " image at " ++ Text.hex base.toNat ++ " (" ++ Text.hex size ++ " bytes)"
  | extentsFound count => toString count ++ " function extents"
  | extentsOutside rva size =>
    "exception directory " ++ Text.hex rva ++ "+" ++ Text.hex size ++ " is outside of the image"
  | exportsFound count => toString count ++ " exports"
  | symbolsFound count => toString count ++ " symbols in map"
  | resolved anchor function target callee =>
    anchor ++ ": " ++ Text.hex function.toNat ++ ", " ++ target ++ ": " ++ Text.hex callee.toNat
  | blocksFound count entry => toString count ++ " blocks at " ++ Text.hex entry.toNat
  | callFound address => "call site: " ++ Text.hex address.toNat
  | pathFound target blocks => "path to " ++ Text.hex target.toNat ++ ": " ++ addresses blocks
  | replaying instructions blocks call =>
    "emulating " ++ toString instructions ++ " instructions (" ++ toString blocks ++ " blocks) up to "
      ++ Text.hex call.toNat
  | injecting r => "pre emulation hook loading " ++ r.name
  | executing i => Text.hex i.ip.toNat ++ ": " ++ Assembly.text i
  | skippingCall address => "skipping call at " ++ Text.hex address.toNat
  | unmodelled o address => "unmodelled " ++ o.name ++ " at " ++ Text.hex address.toNat
  | repeatedStore address =>
    "repeated store at " ++ Text.hex address.toNat ++ ", forgetting spilled bases"
  | untrackedStore address =>
    "untracked store at " ++ Text.hex address.toNat ++ ", forgetting spilled bases"
  | offsetFound r call value offset =>
    r.name ++ " at " ++ Text.hex call.toNat ++ " is " ++ Text.hex0x value.toNat ++ ", offset "
      ++ Text.hex0x offset.toNat
  | fieldFound owner field offset =>
    owner ++ "." ++ field ++ ": " ++ Text.hex0x offset.toNat
  | structureFound name b => name ++ " (" ++ b.name ++ ")"
  | memberFound field offset => field ++ ": " ++ Text.hex0x offset.toNat

end Event

end KernelOffsets

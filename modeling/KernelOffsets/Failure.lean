/-
Why an offset, an image or a symbol table could not be had. Each cause is a
constructor; `Failure.message` is the only place where it is worded.
-/
import KernelOffsets.Register.Name
import KernelOffsets.Text.Hex

namespace KernelOffsets

/-- Why an emulated path gives no trustworthy offset. -/
inductive Divergence where
  /-- No path of control leads from the entry to the call. -/
  | unreachable
  | invalidInstruction
  | budgetExhausted
  /-- The register still holds the injected base. -/
  | registerNotWritten (r : Register)
  | notBaseRelative (r : Register)
  /-- The register points below the injected base. -/
  | negativeOffset (r : Register)
  deriving DecidableEq, Repr

/-- The wording of a divergence. -/
def Divergence.message : Divergence → String
  | unreachable => "call site is unreachable from the function entry"
  | invalidInstruction => "undecodable instruction on path"
  | budgetExhausted => "instruction budget exhausted"
  | registerNotWritten r => r.name ++ " was never written"
  | notBaseRelative r => r.name ++ " does not hold a base-relative value"
  | negativeOffset r => r.name ++ " points below the base"

/-- Why a file is not a portable executable that can be read. -/
inductive FileFault where
  /-- A field has a value that the format does not allow. -/
  | malformed
  /-- A field lies outside of the file or is not text where text is due. -/
  | unreadable
  /-- The optional header starts with an unknown number. -/
  | badMagic (magic : UInt16)
  deriving DecidableEq, Repr

/-- The wording of a file fault. -/
def FileFault.message : FileFault → String
  | malformed => "Malformed entity"
  | unreadable => "Unreadable field"
  | badMagic m => "Invalid magic number: " ++ Text.hex0x m.toNat

/-- A failure of the library. -/
inductive Failure where
  | symbolNotFound (name : String)
  | callSiteNotFound (anchor target : String)
  | divergence (address : UInt64) (reason : Divergence)
  | invalidImage (reason : String)
  | malformedFile (fault : FileFault)
  | unreadableMemory
  | symbolMap (line : Nat) (reason : String)
  deriving DecidableEq, Repr

/-- The wording of a failure. -/
def Failure.message : Failure → String
  | symbolNotFound name => "symbol not found: " ++ name
  | callSiteNotFound anchor target => anchor ++ " does not call " ++ target
  | divergence address reason =>
    "emulation diverged at " ++ Text.hex address.toNat ++ ": " ++ reason.message
  | invalidImage reason => "invalid image: " ++ reason
  | malformedFile fault => "malformed PE: " ++ fault.message
  | unreadableMemory => "memory read failed: memory: unable to read memory"
  | symbolMap line reason => "symbol map line " ++ toString line ++ ": " ++ reason

end KernelOffsets

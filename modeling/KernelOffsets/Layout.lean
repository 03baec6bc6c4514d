/-
Kernel structures as they are described before their offsets are known: a
name, and for each field the way its offset is found.
-/
import KernelOffsets.Register.Basic

namespace KernelOffsets

/-- The way the offset of a field is found. -/
inductive Discovery where
  /-- The field has the same offset in every build. -/
  | constant (offset : UInt64)
  /-- The offset is what `register` has moved past its base when `anchor` calls `target`. -/
  | emulated (anchor target : String) (register : SharedRegister)
  deriving DecidableEq, Repr

/-- A field of a kernel structure. -/
structure Field where
  name : String
  discovery : Discovery
  deriving DecidableEq, Repr

/-- A kernel structure and the fields to find in it. -/
structure StructureLayout where
  name : String
  fields : List Field
  deriving DecidableEq, Repr

namespace StructureLayout

/-- The first field of a name. -/
def field? (s : StructureLayout) (name : String) : Option Field :=
  s.fields.find? (·.name == name)

/-- The offset of a field that is the same in every build. -/
def constantOffset? (s : StructureLayout) (name : String) : Option UInt64 :=
  match s.field? name with
  | some ⟨_, .constant offset⟩ => some offset
  | _ => none

end StructureLayout

end KernelOffsets

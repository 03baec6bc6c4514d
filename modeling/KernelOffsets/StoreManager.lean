/-
`SMKM_STORE_MGR`, the store manager of compressed memory in Windows 10. It
starts with the structure `SMKM` and holds a tree of all page keys in use,
which `SmFeCheckPresent` passes to `BTreeSearchKey` as the first argument.
-/
import KernelOffsets.Resolver

namespace KernelOffsets.StoreManager

/-- `SMKM` is nested at the start in every build seen so far. -/
def smKm : Field := ⟨"sSmKm", .constant 0⟩

/-- The tree of page keys, with the store of each and the flags it was made with. -/
def globalTree : Field :=
  ⟨"sGlobalTree",
    .emulated "?SmFeCheckPresent" "?BTreeSearchKey@?$B_TREE@T_SM_PAGE_KEY@@USMKM_FRONTEND_ENTRY" .cx⟩

/-- The structure. -/
def layout : StructureLayout := ⟨"SMKM_STORE_MGR", [smKm, globalTree]⟩

/-- The offsets of the fields. -/
structure Offsets where
  smKm : UInt64
  globalTree : UInt64
  deriving DecidableEq, Repr

/-- The offset of `SMKM`. -/
def smKmOffset (s : Resolver) : Logged UInt64 := s.fieldOffset smKm

/-- The offset of the tree. -/
def globalTreeOffset (s : Resolver) : Logged UInt64 := s.fieldOffset globalTree

/-- The offsets of both fields. -/
def offsets (s : Resolver) : Logged Offsets := do
  return { smKm := ← smKmOffset s, globalTree := ← globalTreeOffset s }

/-- Finds both offsets and reports them. -/
def dump (s : Resolver) : Logged Offsets := do
  let found ← offsets s
  Logged.report [
    .structureFound layout.name s.image.bitness,
    .memberFound smKm.name found.smKm,
    .memberFound globalTree.name found.globalTree]
  return found

end KernelOffsets.StoreManager

/-
Symbol tables from their sources: a symbol map, or the named exports of a
file at its preferred base address.
-/
import KernelOffsets.Logged
import KernelOffsets.PortableExecutable.File
import KernelOffsets.Symbols.Map

namespace KernelOffsets.SymbolTable

/-- A bad line as a failure. -/
def mapFailure (f : MapFault) : Failure := .symbolMap f.line f.fault.message

/-- The symbols of a map. -/
def ofMap (text : String) : Logged SymbolTable := do
  let t ← Logged.ofExcept ((SymbolMap.parse text).mapError mapFailure)
  Logged.note (.symbolsFound t.size)
  return t

/-- The table of named exports at a base address; of equal names the last one counts. -/
def ofExports (base : UInt64) (exports : List PortableExecutable.Export) : SymbolTable :=
  exports.foldl
    (fun t e => match e.name with
      | some name => t.insert name (base + e.rva.toUInt64)
      | none => t)
    empty

/-- The named exports of a file. -/
def ofFile (file : PortableExecutable.Bytes) : Logged SymbolTable := do
  let f ← Logged.ofExcept ((PortableExecutable.read file).mapError .malformedFile)
  let t := ofExports f.imageBase.toUInt64 f.exports
  Logged.note (.exportsFound t.size)
  return t

end KernelOffsets.SymbolTable

/-
Finding the call of one function by another. The code of the calling function
is what its unwind data covers, or a window of bytes where there is none; only
calls that can be reached from its entry count.
-/
import KernelOffsets.ControlFlow.Search
import KernelOffsets.Image.Basic
import KernelOffsets.Logged
import KernelOffsets.Symbols.Table

namespace KernelOffsets

namespace ControlFlow

/-- The blocks of some code, reported. -/
def survey (mode : Bitness) (code : List UInt8) (entry : UInt64) : Logged ControlFlow := do
  let flow := build mode code entry
  Logged.note (.blocksFound flow.blocks.length flow.entry)
  return flow

/-- The path to an instruction, reported if there is one. -/
def route (f : ControlFlow) (target : UInt64) : Logged (Option Path) := do
  let path := f.pathTo? target
  Logged.report ((path.map fun p => Event.pathFound target p.blocks).toList)
  return path

@[simp] theorem result_survey (mode : Bitness) (code : List UInt8) (entry : UInt64) :
    (survey mode code entry).result = .ok (build mode code entry) := by
  simp [survey, Except.bind]

@[simp] theorem result_route (f : ControlFlow) (target : UInt64) :
    (f.route target).result = .ok (f.pathTo? target) := by
  simp [route, Except.bind]

end ControlFlow

/-- A direct call from an anchor to a target. -/
structure CallSite where
  /-- The entry of the anchor. -/
  function : UInt64
  /-- The address after the decoded code of the anchor. -/
  stop : UInt64
  /-- The address of the call. -/
  call : UInt64
  /-- The entry of the target. -/
  target : UInt64
  deriving DecidableEq, Repr

namespace Image

/-- The length of the code at an address: up to the end of its extent, or else a window. -/
def codeLength (i : Image) (start : UInt64) (window : Nat) : Nat :=
  match i.functionAt? start with
  | some (_, stop) => (stop - start).toNat
  | none => window

/-- The code of the function at an address, cut at the end of the image. -/
def functionCode (i : Image) (start : UInt64) (window : Nat) : Except Failure (List UInt8) :=
  match i.bytesFrom? start with
  | some bytes => .ok (bytes.take (i.codeLength start window))
  | none => .error (.invalidImage ("function " ++ Text.hex start.toNat ++ " is outside of the image"))

/-- The lowest reachable call of `target` in `anchor`, with the blocks that it was found in. -/
def locateCall (i : Image) (symbols : SymbolSource) (anchor target : String) (window : Nat) :
    Logged (CallSite × ControlFlow) := do
  let function ← Logged.require (symbols anchor) (.symbolNotFound anchor)
  let callee ← Logged.require (symbols target) (.symbolNotFound target)
  Logged.note (.resolved anchor function target callee)
  let code ← Logged.ofExcept (i.functionCode function window)
  let flow ← ControlFlow.survey i.bitness code function
  let call ← Logged.require (flow.findCall? callee) (.callSiteNotFound anchor target)
  Logged.note (.callFound call)
  return ({ function, stop := function + code.length.toUInt64, call, target := callee }, flow)

end Image

end KernelOffsets

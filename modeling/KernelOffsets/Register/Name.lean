/-
How registers are written. `Register.name` gives the upper case name used in
messages; `Register.named?` reads it back in either case.
-/
import KernelOffsets.Register.Basic

namespace KernelOffsets

/-- The two letters shared by the names of the first eight registers. -/
def Gpr.stem : Gpr → String
  | .ax => "AX" | .cx => "CX" | .dx => "DX" | .bx => "BX"
  | .sp => "SP" | .bp => "BP" | .si => "SI" | .di => "DI"
  | .r8 => "R8" | .r9 => "R9" | .r10 => "R10" | .r11 => "R11"
  | .r12 => "R12" | .r13 => "R13" | .r14 => "R14" | .r15 => "R15"

/-- The name of the lowest byte of a register. -/
def Gpr.byteName : Gpr → String
  | .ax => "AL" | .cx => "CL" | .dx => "DL" | .bx => "BL"
  | .sp => "SPL" | .bp => "BPL" | .si => "SIL" | .di => "DIL"
  | g => g.stem ++ "L"

/-- The name of a general purpose register at a width. -/
def Gpr.name (g : Gpr) : Width → String
  | .byte => g.byteName
  | .word => if g.number < 8 then g.stem else g.stem ++ "W"
  | .dword => if g.number < 8 then "E" ++ g.stem else g.stem ++ "D"
  | .qword => if g.number < 8 then "R" ++ g.stem else g.stem

/-- The name of a high byte. -/
def HighByte.name : HighByte → String
  | ah => "AH" | ch => "CH" | dh => "DH" | bh => "BH"

/-- The name of a segment register. -/
def Segment.name : Segment → String
  | es => "ES" | cs => "CS" | ss => "SS" | ds => "DS" | fs => "FS" | gs => "GS"

/-- The letters before the number of a vector register. -/
def VectorWidth.name : VectorWidth → String
  | xmm => "XMM" | ymm => "YMM" | zmm => "ZMM"

namespace Register

/-- The upper case name of a register. -/
def name : Register → String
  | gpr g w => g.name w
  | highByte h => h.name
  | segment s => s.name
  | instructionPointer .qword => "RIP"
  | instructionPointer .dword => "EIP"
  | instructionPointer _ => "IP"
  | control n => "CR" ++ toString n
  | debug n => "DR" ++ toString n
  | floatStack n => "ST" ++ toString n
  | mmx n => "MM" ++ toString n
  | opmask n => "K" ++ toString n
  | vector w n => w.name ++ toString n
  | tile n => "TMM" ++ toString n
  | absent => "None"

/-- Every register that can be named. -/
def all : List Register :=
  [.byte, .word, .dword, .qword].flatMap (fun w => Gpr.all.map (gpr · w))
    ++ [.ah, .ch, .dh, .bh].map highByte
    ++ [.es, .cs, .ss, .ds, .fs, .gs].map segment
    ++ [instructionPointer .dword, instructionPointer .qword]
    ++ (List.range 16).map control
    ++ (List.range 16).map debug
    ++ (List.range 8).map floatStack
    ++ (List.range 8).map mmx
    ++ (List.range 8).map opmask
    ++ [VectorWidth.xmm, .ymm, .zmm].flatMap (fun w => (List.range 32).map (vector w))
    ++ (List.range 8).map tile
    ++ [absent]

/-- The register of a name, which may be written in either case. -/
def named? (s : String) : Option Register :=
  all.find? (fun r => r.name.toUpper == s.toUpper)

end Register

end KernelOffsets

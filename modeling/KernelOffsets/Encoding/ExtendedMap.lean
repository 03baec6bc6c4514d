/-
The forms behind the vector prefix 8F, in three tables: instructions with a
constant of one byte, without a constant, and with a constant of four bytes.
-/
import KernelOffsets.Encoding.VectorMap

namespace KernelOffsets.Encoding.ExtendedMap

open Entry
open VectorMap (full extra rm xmm xmmExtra xmmRm)

/-- The comparisons, by their constant. -/
def comparisons : List String :=
  ["lt", "le", "gt", "ge", "eq", "neq", "false", "true"]

/-- The ends of the names for elements of one, two, four and eight bytes. -/
def elements : List String := ["b", "w", "d", "q"]

/-- The table of instructions with a constant of one byte. -/
def tableOfBytes : List Entry :=
  let product (name : String) : Form := .named name [xmm, xmmExtra, xmmRm 16, .vectorConstant .xmm] 1
  let compare (kind : String) : Form :=
    (Form.named ("Vpcom" ++ kind) [xmm, xmmExtra, xmmRm 16, .constant] 1).spelled
      (Family.compared "vpcom" comparisons kind)
  [((0x85 : UInt8), "Vpmacssww"), (0x86, "Vpmacsswd"), (0x87, "Vpmacssdql"), (0x8e, "Vpmacssdd"),
   (0x8f, "Vpmacssdqh"), (0x95, "Vpmacsww"), (0x96, "Vpmacswd"), (0x97, "Vpmacsdql"), (0x9e, "Vpmacsdd"),
   (0x9f, "Vpmacsdqh"), (0xa6, "Vpmadcsswd"), (0xb6, "Vpmadcswd")].map
    (fun (op, name) => ((plain op (product name)).narrow).of [.xmm]) ++
  [(plain 0xa2 (.named "Vpcmov" [full, extra, rm, .vectorConstant .full] 1)).narrow,
   (plain 0xa2 (.named "Vpcmov" [full, extra, .vectorConstant .full, rm] 1)).widened,
   ((plain 0xa3 (product "Vpperm")).narrow).of [.xmm],
   ((plain 0xa3 (.named "Vpperm" [xmm, xmmExtra, .vectorConstant .xmm, xmmRm 16] 1)).widened).of [.xmm]] ++
  elements.zipIdx.flatMap fun (kind, n) =>
    [((plain (0xc0 + n.toUInt8) (.named ("Vprot" ++ kind) [xmm, xmmRm 16, .constant] 1)).narrow).of [.xmm],
     ((plain (0xcc + n.toUInt8) (compare kind)).narrow).of [.xmm],
     ((plain (0xec + n.toUInt8) (compare ("u" ++ kind))).narrow).of [.xmm]]

/-- The instructions on the low bits of a general register. -/
def lowBits : List Entry :=
  let form (name : String) : Form := .named name [.extra .general, .rm .general] 1
  let context (name : String) : Form := (Form.named name [.base .general]).onRegister
  ([((0x01 : UInt8), (1 : Fin 8), "Blcfill"), (0x01, 2, "Blsfill"), (0x01, 3, "Blcs"), (0x01, 4, "Tzmsk"),
    (0x01, 5, "Blcic"), (0x01, 6, "Blsic"), (0x01, 7, "T1mskc"), (0x02, 1, "Blcmsk"), (0x02, 6, "Blci")].map
     (fun (op, digit, name) => (plain op (form name)).slash digit) ++
   [(plain 0x12 (context "Llwpcb")).slash 0,
    (plain 0x12 { context "Slwpcb" with changed := 1 }).slash 1]).map fun (e : Entry) => e.of [.xmm]

/-- The sums and differences of neighbours. -/
def neighbours : List (UInt8 × String) :=
  [(0xc1, "Vphaddbw"), (0xc2, "Vphaddbd"), (0xc3, "Vphaddbq"), (0xc6, "Vphaddwd"), (0xc7, "Vphaddwq"),
   (0xcb, "Vphadddq"), (0xd1, "Vphaddubw"), (0xd2, "Vphaddubd"), (0xd3, "Vphaddubq"), (0xd6, "Vphadduwd"),
   (0xd7, "Vphadduwq"), (0xdb, "Vphaddudq"), (0xe1, "Vphsubbw"), (0xe2, "Vphsubwd"), (0xe3, "Vphsubdq")]

/-- The table of instructions without a constant. -/
def tableOfNothing : List Entry :=
  let shift (op : UInt8) (name : String) : List Entry :=
    [((plain op (.named name [xmm, xmmRm 16, xmmExtra] 1)).narrow).of [.xmm],
     ((plain op (.named name [xmm, xmmExtra, xmmRm 16] 1)).widened).of [.xmm]]
  lowBits ++
  [(plain 0x80 (.named "Vfrczps" [full, rm] 1)).narrow, (plain 0x81 (.named "Vfrczpd" [full, rm] 1)).narrow,
   ((plain 0x82 (.named "Vfrczss" [xmm, xmmRm 4] 1)).narrow).of [.xmm],
   ((plain 0x83 (.named "Vfrczsd" [xmm, xmmRm 8] 1)).narrow).of [.xmm]] ++
  elements.zipIdx.flatMap (fun (kind, n) =>
    shift (0x90 + n.toUInt8) ("Vprot" ++ kind) ++ shift (0x94 + n.toUInt8) ("Vpshl" ++ kind) ++
    shift (0x98 + n.toUInt8) ("Vpsha" ++ kind)) ++
  neighbours.map fun (op, name) => ((plain op (.named name [xmm, xmmRm 16] 1)).narrow).of [.xmm]

/-- The table of instructions with a constant of four bytes. -/
def tableOfDwords : List Entry :=
  let constant : OperandCode := .immediate .dword .dword
  [plain 0x10 (.named "Bextr" [.reg .general, .rm .general, constant] 1),
   (plain 0x12 (Form.named "Lwpins" [.extra .general, .rm .dword, constant]).sized).slash 0,
   (plain 0x12 (Form.named "Lwpval" [.extra .general, .rm .dword, constant]).sized).slash 1].map (·.of [.xmm])

/-- The table that the low five bits of the byte after 8F select. -/
def table? (first : UInt8) : Option (List Entry) :=
  match first &&& 0x1f with
  | 8 => some tableOfBytes
  | 9 => some tableOfNothing
  | 10 => some tableOfDwords
  | _ => none

end KernelOffsets.Encoding.ExtendedMap

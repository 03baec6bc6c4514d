/-
The forms behind the vector prefix 62, in a table for each map. Most of them
are those of `VectorMap` on wider registers, where a mask tells which elements
change, where one element in memory can stand for all, or where registers are
rounded in a way of their own.
-/
import KernelOffsets.Encoding.ExtendedMap
import KernelOffsets.Encoding.VectorPrefix

namespace KernelOffsets.Encoding.MaskedMap

open Entry
open VectorMap (full extra rm xmm xmmExtra xmmRm comparing)

/-! ## Forms -/

/-- An instruction with one source. -/
def unary (name : String) : Form := (Form.named name [full, rm] 1).withMask

/-- An instruction with two sources. -/
def binary (name : String) : Form := (Form.named name [full, extra, rm] 1).withMask

/-- An instruction with one source and a constant. -/
def unaryConstant (name : String) : Form := (Form.named name [full, rm, .constant] 1).withMask

/-- An instruction with two sources and a constant. -/
def binaryConstant (name : String) : Form := (Form.named name [full, extra, rm, .constant] 1).withMask

/-- An instruction on single elements with two sources. -/
def scalar (name : String) (bytes : Nat) : Form :=
  (Form.named name [xmm, xmmExtra, xmmRm bytes] 1).withMask

/-- The same with a constant. -/
def scalarConstant (name : String) (bytes : Nat) : Form :=
  (Form.named name [xmm, xmmExtra, xmmRm bytes, .constant] 1).withMask

/-- A store of a whole register. -/
def store (name : String) : Form := (Form.named name [rm, full] 1).withMask

/-- A comparison whose result is a mask. -/
def compare (name : String) : Form := (Form.named name [.opmask, extra, rm] 1).withMask .merging

/-- The same with a constant. -/
def compareConstant (name : String) : Form :=
  (Form.named name [.opmask, extra, rm, .constant] 1).withMask .merging

/-- A comparison of single elements, whose result is in the flags. -/
def scalarCompare (name : String) (bytes : Nat) : Form :=
  (Form.named name [xmm, xmmRm bytes]).withRounding .silent

/-- A conversion of one element to a general register. -/
def toGeneral (name : String) (bytes : Nat) (rounding : RoundingChoice) : Form :=
  (Form.named name [.reg .general, xmmRm bytes] 1).withRounding rounding

/-- A conversion of a general register to one element. -/
def fromGeneral (name : String) : Form :=
  ((Form.named name [xmm, xmmExtra, .rm .general] 1).withRounding).sized

/-- A conversion between parts of registers. -/
def conversion (name : String) (result operand : Lanes) : Form :=
  (Form.named name [.vector result, .vectorRm operand none] 1).withMask

/-! ## Rows -/

/-- An instruction on packed elements of four and of eight bytes, by prefix and wide bit. -/
def packed (op : UInt8) (stem : String) (form : String → Nat → Form) : List Entry :=
  [(plain op (form ("V" ++ stem ++ "ps") 4)).narrow, (with66 op (form ("V" ++ stem ++ "pd") 8)).widened]

/-- The same on single elements. -/
def single (op : UInt8) (stem : String) (form : String → Nat → Form) : List Entry :=
  [(withF3 op (form ("V" ++ stem ++ "ss") 4)).narrow, (withF2 op (form ("V" ++ stem ++ "sd") 8)).widened]

/-- Two instructions behind 66 on elements of four and of eight bytes, told apart by the wide bit. -/
def byElement (op : UInt8) (narrow wide : String) (form : String → Nat → Form) : List Entry :=
  [(with66 op (form ("V" ++ narrow) 4)).narrow, (with66 op (form ("V" ++ wide) 8)).widened]

/-- The same for elements of one and of two bytes. -/
def bySmallElement (op : UInt8) (narrow wide : String) (form : String → Form) : List Entry :=
  [(with66 op (form ("V" ++ narrow))).narrow, (with66 op (form ("V" ++ wide))).widened]

/-- The row for elements of a size; the wide bit does not matter to small elements. -/
def bySize (bytes : Nat) (row : Entry) : Entry :=
  match bytes with
  | 4 => row.narrow
  | 8 => row.widened
  | _ => row

/-- An instruction behind 66 on elements of a size, one of which can stand for all if it has one. -/
def sizedRow (op : UInt8) (bytes : Nat) (form : Form) : Entry :=
  bySize bytes (with66 op (form.withBroadcast bytes))

/-- The vector lengths past the least one. -/
def long : List VectorWidth := [.ymm, .zmm]

/-- A conversion whose result does not tell the length of its source, which is written then. -/
def shrinking (row : Form → Entry) (form : Form) : List Entry :=
  [(row form.sized).of [.xmm, .ymm], (row form).of [.zmm]]

/-! ## Behind 0F -/

/-- Moves of floating point elements. -/
def moves : List Entry :=
  packed 0x10 "movu" (fun name _ => unary name) ++ packed 0x11 "movu" (fun name _ => store name) ++
  single 0x10 "mov" (fun name bytes => ((Form.named name [xmm, xmmRm bytes] 1).withMask).onMemory) ++
  single 0x10 "mov" (fun name bytes => (scalar name bytes).onRegister) ++
  single 0x11 "mov" (fun name bytes => ((Form.named name [xmmRm bytes, xmm] 1).withMask).onMemory) ++
  single 0x11 "mov" (fun name bytes => ((Form.named name [xmmRm bytes, xmmExtra, xmm] 1).withMask).onRegister) ++
  [((plain 0x12 (VectorMap.scalar "Vmovlps" 8).onMemory).narrow).of [.xmm],
   ((plain 0x12 (VectorMap.scalar "Vmovhlps" 16).onRegister).narrow).of [.xmm],
   ((with66 0x12 (VectorMap.scalar "Vmovlpd" 8).onMemory).widened).of [.xmm],
   (withF3 0x12 (unary "Vmovsldup")).narrow,
   ((withF2 0x12 ((Form.named "Vmovddup" [full, .vectorRm .full (some 8)] 1).withMask)).widened).of [.xmm],
   ((withF2 0x12 (unary "Vmovddup")).widened).of long,
   ((plain 0x13 (Form.named "Vmovlps" [xmmRm 8, xmm] 1).onMemory).narrow).of [.xmm],
   ((with66 0x13 (Form.named "Vmovlpd" [xmmRm 8, xmm] 1).onMemory).widened).of [.xmm],
   ((plain 0x16 (VectorMap.scalar "Vmovhps" 8).onMemory).narrow).of [.xmm],
   ((plain 0x16 (VectorMap.scalar "Vmovlhps" 16).onRegister).narrow).of [.xmm],
   ((with66 0x16 (VectorMap.scalar "Vmovhpd" 8).onMemory).widened).of [.xmm],
   (withF3 0x16 (unary "Vmovshdup")).narrow,
   ((plain 0x17 (Form.named "Vmovhps" [xmmRm 8, xmm] 1).onMemory).narrow).of [.xmm],
   ((with66 0x17 (Form.named "Vmovhpd" [xmmRm 8, xmm] 1).onMemory).widened).of [.xmm]] ++
  packed 0x28 "mova" (fun name _ => unary name) ++ packed 0x29 "mova" (fun name _ => store name) ++
  packed 0x2b "movnt" (fun name _ => (VectorMap.store name).onMemory)

/-- Moves of integer elements. -/
def integerMoves : List Entry :=
  let pair (row : UInt8 → Form → Entry) (narrow wide : String) : List Entry :=
    [(row 0x6f (unary narrow)).narrow, (row 0x6f (unary wide)).widened,
     (row 0x7f (store narrow)).narrow, (row 0x7f (store wide)).widened]
  (byWidth (with66 0x6e) (fun name => .named name [xmm, .rm .general] 1) "Vmovd" "Vmovq").map (·.of [.xmm]) ++
  (byWidth (with66 0x7e) (fun name => .named name [.rm .general, xmm] 1) "Vmovd" "Vmovq").map (·.of [.xmm]) ++
  pair with66 "Vmovdqa32" "Vmovdqa64" ++ pair withF3 "Vmovdqu32" "Vmovdqu64" ++
  pair withF2 "Vmovdqu8" "Vmovdqu16" ++
  [((withF3 0x7e (.named "Vmovq" [xmm, xmmRm 8] 1)).widened).of [.xmm],
   ((with66 0xd6 (.named "Vmovq" [xmmRm 8, xmm] 1)).widened).of [.xmm],
   (with66 0xe7 (VectorMap.store "Vmovntdq").onMemory).narrow]

/-- Conversions. -/
def conversions : List Entry :=
  let same (name : String) (bytes : Nat) : Form := (unary name).withBroadcast bytes
  let growing (name : String) : Form := (conversion name .full .half).withBroadcast 4
  let halving (name : String) : Form := (conversion name .half .full).withBroadcast 8
  [withF3 0x2a (fromGeneral "Vcvtsi2ss"), withF2 0x2a (fromGeneral "Vcvtsi2sd"),
   withF3 0x2c (toGeneral "Vcvttss2si" 4 .silent), withF2 0x2c (toGeneral "Vcvttsd2si" 8 .silent),
   withF3 0x2d (toGeneral "Vcvtss2si" 4 .any), withF2 0x2d (toGeneral "Vcvtsd2si" 8 .any),
   (plain 0x5a ((growing "Vcvtps2pd").withRounding .silent)).narrow,
   (withF3 0x5a ((scalar "Vcvtss2sd" 4).withRounding .silent)).narrow,
   (withF2 0x5a ((scalar "Vcvtsd2ss" 8).withRounding)).widened,
   (plain 0x5b ((same "Vcvtdq2ps" 4).withRounding)).narrow,
   (with66 0x5b ((same "Vcvtps2dq" 4).withRounding)).narrow,
   (withF3 0x5b ((same "Vcvttps2dq" 4).withRounding .silent)).narrow,
   (plain 0x78 ((same "Vcvttps2udq" 4).withRounding .silent)).narrow,
   (with66 0x78 ((growing "Vcvttps2uqq").withRounding .silent)).narrow,
   (with66 0x78 ((same "Vcvttpd2uqq" 8).withRounding .silent)).widened,
   withF3 0x78 (toGeneral "Vcvttss2usi" 4 .silent), withF2 0x78 (toGeneral "Vcvttsd2usi" 8 .silent),
   (plain 0x79 ((same "Vcvtps2udq" 4).withRounding)).narrow,
   (with66 0x79 ((growing "Vcvtps2uqq").withRounding)).narrow,
   (with66 0x79 ((same "Vcvtpd2uqq" 8).withRounding)).widened,
   withF3 0x79 (toGeneral "Vcvtss2usi" 4 .any), withF2 0x79 (toGeneral "Vcvtsd2usi" 8 .any),
   (with66 0x7a ((growing "Vcvttps2qq").withRounding .silent)).narrow,
   (with66 0x7a ((same "Vcvttpd2qq" 8).withRounding .silent)).widened,
   (withF3 0x7a (growing "Vcvtudq2pd")).narrow, (withF3 0x7a ((same "Vcvtuqq2pd" 8).withRounding)).widened,
   (withF2 0x7a ((same "Vcvtudq2ps" 4).withRounding)).narrow,
   (with66 0x7b ((growing "Vcvtps2qq").withRounding)).narrow,
   (with66 0x7b ((same "Vcvtpd2qq" 8).withRounding)).widened,
   withF3 0x7b (fromGeneral "Vcvtusi2ss"), withF2 0x7b (fromGeneral "Vcvtusi2sd"),
   (withF3 0xe6 (growing "Vcvtdq2pd")).narrow, (withF3 0xe6 ((same "Vcvtqq2pd" 8).withRounding)).widened] ++
  shrinking (fun form => (with66 0x5a form).widened) ((halving "Vcvtpd2ps").withRounding) ++
  shrinking (fun form => (plain 0x5b form).widened) ((halving "Vcvtqq2ps").withRounding) ++
  shrinking (fun form => (plain 0x78 form).widened) ((halving "Vcvttpd2udq").withRounding .silent) ++
  shrinking (fun form => (plain 0x79 form).widened) ((halving "Vcvtpd2udq").withRounding) ++
  shrinking (fun form => (withF2 0x7a form).widened) ((halving "Vcvtuqq2ps").withRounding) ++
  shrinking (fun form => (with66 0xe6 form).widened) ((halving "Vcvttpd2dq").withRounding .silent) ++
  shrinking (fun form => (withF2 0xe6 form).widened) ((halving "Vcvtpd2dq").withRounding)

/-- How an arithmetic instruction rounds. -/
def roundingOf (stem : String) : RoundingChoice :=
  if stem = "min" || stem = "max" then .silent else .any

/-- Floating point arithmetic and comparisons. -/
def arithmetic : List Entry :=
  (Family.interleaving ++ Family.bitwise).flatMap (fun (op, stem) =>
    packed op stem (fun name bytes => (binary name).withBroadcast bytes)) ++
  Family.arithmetic.flatMap (fun (op, stem) =>
    packed op stem (fun name bytes => ((binary name).withBroadcast bytes).withRounding (roundingOf stem)) ++
    single op stem (fun name bytes => (scalar name bytes).withRounding (roundingOf stem))) ++
  packed 0x51 "sqrt" (fun name bytes => ((unary name).withBroadcast bytes).withRounding) ++
  single 0x51 "sqrt" (fun name bytes => (scalar name bytes).withRounding) ++
  [(plain 0x2e (scalarCompare "Vucomiss" 4)).narrow, (with66 0x2e (scalarCompare "Vucomisd" 8)).widened,
   (plain 0x2f (scalarCompare "Vcomiss" 4)).narrow, (with66 0x2f (scalarCompare "Vcomisd" 8)).widened] ++
  packed 0xc2 "cmp" (fun name bytes =>
    ((comparing (if bytes = 4 then "ps" else "pd") (compareConstant name)).withBroadcast bytes).withRounding .silent) ++
  single 0xc2 "cmp" (fun name bytes =>
    (comparing (if bytes = 4 then "ss" else "sd")
      ((Form.named name [.opmask, xmmExtra, xmmRm bytes, .constant] 1).withMask .merging)).withRounding .silent) ++
  packed 0xc6 "shuf" (fun name bytes => (binaryConstant name).withBroadcast bytes)

/-- Integer instructions. -/
def integers : List Entry :=
  let shift (name : String) : Form := (Form.named name [full, extra, xmmRm 16] 1).withMask
  let constantShift (name : String) (bytes : Nat) : Form :=
    ((Form.named name [extra, rm, .constant] 1).withMask).withBroadcast bytes
  (Family.integers ++ Family.vectorIntegers).map
    (fun (op, stem, bytes) => sizedRow op bytes (binary ("V" ++ stem))) ++
  Family.integerComparisons.map (fun (op, stem, bytes) => sizedRow op bytes (compare ("V" ++ stem))) ++
  Family.integerBitwise.flatMap (fun (op, stem) =>
    byElement op (stem ++ "d") (stem ++ "q") (fun name bytes => (binary name).withBroadcast bytes)) ++
  Family.differences.map (fun (op, stem) => with66 op (VectorMap.binary ("V" ++ stem))) ++
  Family.shifts.map (fun (op, stem, bytes) => bySize bytes (with66 op (shift ("V" ++ stem)))) ++
  [(with66 0xe2 (shift "Vpsraq")).widened] ++
  Family.constantShifts.map (fun (op, digit, stem, bytes) =>
    (bySize bytes (with66 op (constantShift ("V" ++ stem) (if bytes = 2 then 0 else bytes)))).slash digit) ++
  [((with66 0x72 (constantShift "Vpsraq" 8)).widened).slash 4] ++
  (byElement 0x72 "prord" "prorq" constantShift).map (·.slash 0) ++
  (byElement 0x72 "prold" "prolq" constantShift).map (·.slash 1) ++
  Family.byteShifts.map (fun (op, digit, stem) =>
    (with66 op (.named ("V" ++ stem) [extra, rm, .constant] 1)).slash digit) ++
  [(with66 0x70 ((unaryConstant "Vpshufd").withBroadcast 4)).narrow, withF3 0x70 (unaryConstant "Vpshufhw"),
   withF2 0x70 (unaryConstant "Vpshuflw"),
   (with66 0xc4 (.named "Vpinsrw" [xmm, xmmExtra, .rmAs .general 2, .constant] 1)).of [.xmm],
   (with66 0xc5 (Form.named "Vpextrw" [.reg .general, xmmRm 16, .constant] 1).onRegister).of [.xmm]]

/-- The table behind 0F. -/
def table : List Entry :=
  moves ++ integerMoves ++ conversions ++ arithmetic ++ integers

/-! ## Behind 0F 38 -/

/-- Products with a sum, in all orders of the operands. -/
def products : List Entry :=
  Family.orders.flatMap fun (high, order) => Family.products.flatMap fun (low, stem, isSingle) =>
    let name := "f" ++ stem ++ order
    if isSingle then
      byElement (high + low) (name ++ "ss") (name ++ "sd") (fun name bytes => (scalar name bytes).withRounding)
    else
      byElement (high + low) (name ++ "ps") (name ++ "pd")
        (fun name bytes => ((binary name).withBroadcast bytes).withRounding)

/-- A load of elements at addresses from a vector of indices, with the width of the result and of the indices. -/
def gather (name : String) (bytes : Nat) (result index : Lanes) : Form :=
  { ((Form.named name [.vector result, .gather bytes index] 1 [.mask]).withMask .required).onMemory with
    distinct := .all }

/-- A store of elements at addresses from a vector of indices. -/
def scatter (name : String) (bytes : Nat) (source index : Lanes) : Form :=
  ((Form.named name [.gather bytes index, .vector source] 1 [.mask]).withMask .required).onMemory

/-- The four kinds of an instruction on elements at many addresses, by the sizes of the indices and the elements. -/
def gatherKinds (op : UInt8) (first : String) (names : List String)
    (form : String → Nat → Lanes → Lanes → Form) : List Entry :=
  match names with
  | [dd, dq, qd, qq] =>
    [(with66 op (form (first ++ dd) 4 .full .full)).narrow,
     (with66 op (form (first ++ dq) 8 .full .half)).widened,
     (with66 (op + 1) (form (first ++ qd) 4 .half .full)).narrow,
     (with66 (op + 1) (form (first ++ qq) 8 .full .full)).widened]
  | _ => []

/-- Hints to load elements at many addresses into a cache. -/
def gatherHints : List Entry :=
  let hint (name : String) (bytes : Nat) (index : Lanes) : Form :=
    ((Form.named name [.gather bytes index]).withMask .required).onMemory
  let names : List (Fin 8 × String) :=
    [(1, "Vgatherpf0"), (2, "Vgatherpf1"), (5, "Vscatterpf0"), (6, "Vscatterpf1")]
  names.flatMap fun (digit, name) =>
    [(with66 0xc6 (hint (name ++ "dps") 4 .full)).narrow,
     (with66 0xc6 (hint (name ++ "dpd") 8 .half)).widened,
     (with66 0xc7 (hint (name ++ "qps") 4 .full)).narrow,
     (with66 0xc7 (hint (name ++ "qpd") 8 .full)).widened].map
      fun e => (e.slash digit).of [.zmm]

/-- Instructions on elements at many addresses. -/
def gathers : List Entry :=
  gatherKinds 0x90 "Vpgather" ["dd", "dq", "qd", "qq"] gather ++
  gatherKinds 0x92 "Vgather" ["dps", "dpd", "qps", "qpd"] gather ++
  gatherKinds 0xa0 "Vpscatter" ["dd", "dq", "qd", "qq"] scatter ++
  gatherKinds 0xa2 "Vscatter" ["dps", "dpd", "qps", "qpd"] scatter ++ gatherHints

/-- Narrowing stores, with the share of the register that the result fills. -/
def narrowing : List Entry :=
  let row (op : UInt8) (name : String) (lanes : Lanes) : Entry :=
    (withF3 op ((Form.named name [.vectorRm lanes none, full] 1).withMask)).narrow
  let kinds : List (UInt8 × String × Lanes) :=
    [(0x00, "wb", .half), (0x01, "db", .quarter), (0x02, "qb", .eighth), (0x03, "dw", .half),
     (0x04, "qw", .quarter), (0x05, "qd", .half)]
  kinds.flatMap fun (low, kind, lanes) =>
    [row (0x10 + low) ("Vpmovus" ++ kind) lanes, row (0x20 + low) ("Vpmovs" ++ kind) lanes,
     row (0x30 + low) ("Vpmov" ++ kind) lanes]

/-- Copies of one element or of a part of a register to all of a register. -/
def broadcasts : List Entry :=
  let element (name : String) (bytes : Nat) : Form := (Form.named name [full, xmmRm bytes] 1).withMask
  let part (name : String) (bytes : Nat) : Form :=
    ((Form.named name [full, .memory bytes] 1).withMask).onMemory
  let general (name : String) : Form := ((Form.named name [full, .base .general] 1).withMask).onRegister
  let narrowGeneral (name : String) : Form := ((Form.named name [full, .base .dword] 1).withMask).onRegister
  let mask (name : String) : Form := (Form.named name [full, .opmaskRm 0] 1).onRegister
  [(with66 0x18 (element "Vbroadcastss" 4)).narrow,
   ((with66 0x19 (element "Vbroadcastf32x2" 8)).narrow).of long,
   ((with66 0x19 (element "Vbroadcastsd" 8)).widened).of long,
   ((with66 0x1a (part "Vbroadcastf32x4" 16)).narrow).of long,
   ((with66 0x1a (part "Vbroadcastf64x2" 16)).widened).of long,
   ((with66 0x1b (part "Vbroadcastf32x8" 32)).narrow).of [.zmm],
   ((with66 0x1b (part "Vbroadcastf64x4" 32)).widened).of [.zmm],
   (with66 0x58 (element "Vpbroadcastd" 4)).narrow,
   (with66 0x59 (element "Vbroadcasti32x2" 8)).narrow, (with66 0x59 (element "Vpbroadcastq" 8)).widened,
   ((with66 0x5a (part "Vbroadcasti32x4" 16)).narrow).of long,
   ((with66 0x5a (part "Vbroadcasti64x2" 16)).widened).of long,
   ((with66 0x5b (part "Vbroadcasti32x8" 32)).narrow).of [.zmm],
   ((with66 0x5b (part "Vbroadcasti64x4" 32)).widened).of [.zmm],
   (with66 0x78 (element "Vpbroadcastb" 1)).narrow, (with66 0x79 (element "Vpbroadcastw" 2)).narrow,
   (with66 0x7a (narrowGeneral "Vpbroadcastb")).narrow, (with66 0x7b (narrowGeneral "Vpbroadcastw")).narrow,
   (withF3 0x2a (mask "Vpbroadcastmb2q")).widened, (withF3 0x3a (mask "Vpbroadcastmw2d")).narrow] ++
  byWidth (with66 0x7c) general "Vpbroadcastd" "Vpbroadcastq"

/-- Moves between masks and vectors, and tests of vectors. -/
def masks38 : List Entry :=
  let fromMask (name : String) : Form := (Form.named name [full, .opmaskRm 0] 1).onRegister
  let toMask (name : String) : Form := (Form.named name [.opmask, rm] 1).onRegister
  bySmallElement 0x26 "ptestmb" "ptestmw" compare ++
  [(withF3 0x26 (compare "Vptestnmb")).narrow, (withF3 0x26 (compare "Vptestnmw")).widened] ++
  byElement 0x27 "ptestmd" "ptestmq" (fun name bytes => (compare name).withBroadcast bytes) ++
  [(withF3 0x27 ((compare "Vptestnmd").withBroadcast 4)).narrow,
   (withF3 0x27 ((compare "Vptestnmq").withBroadcast 8)).widened,
   (withF3 0x28 (fromMask "Vpmovm2b")).narrow, (withF3 0x28 (fromMask "Vpmovm2w")).widened,
   (withF3 0x38 (fromMask "Vpmovm2d")).narrow, (withF3 0x38 (fromMask "Vpmovm2q")).widened,
   (withF3 0x29 (toMask "Vpmovb2m")).narrow, (withF3 0x29 (toMask "Vpmovw2m")).widened,
   (withF3 0x39 (toMask "Vpmovd2m")).narrow, (withF3 0x39 (toMask "Vpmovq2m")).widened,
   (withF2 0x68 ((Form.named "Vp2intersectd" [.opmask, extra, rm] 1).withBroadcast 4)).narrow,
   (withF2 0x68 ((Form.named "Vp2intersectq" [.opmask, extra, rm] 1).withBroadcast 8)).widened,
   (with66 0x8f (compare "Vpshufbitqmb")).narrow]

/-- Instructions on floating point elements. -/
def floats38 : List Entry :=
  let spread (name : String) (bytes : Nat) : Form := (unary name).withBroadcast bytes
  let spread2 (name : String) (bytes : Nat) : Form := (binary name).withBroadcast bytes
  let silent (name : String) (bytes : Nat) : Form := ((unary name).withBroadcast bytes).withRounding .silent
  [(with66 0x0c (spread2 "Vpermilps" 4)).narrow, (with66 0x0d (spread2 "Vpermilpd" 8)).widened,
   (with66 0x13 ((conversion "Vcvtph2ps" .full .half).withRounding .silent)).narrow] ++
  (byElement 0x16 "permps" "permpd" spread2).map (·.of long) ++
  byElement 0x2c "scalefps" "scalefpd" (fun name bytes => ((binary name).withBroadcast bytes).withRounding) ++
  byElement 0x2d "scalefss" "scalefsd" (fun name bytes => (scalar name bytes).withRounding) ++
  byElement 0x42 "getexpps" "getexppd" silent ++
  byElement 0x43 "getexpss" "getexpsd" (fun name bytes => (scalar name bytes).withRounding .silent) ++
  byElement 0x4c "rcp14ps" "rcp14pd" spread ++ byElement 0x4d "rcp14ss" "rcp14sd" scalar ++
  byElement 0x4e "rsqrt14ps" "rsqrt14pd" spread ++ byElement 0x4f "rsqrt14ss" "rsqrt14sd" scalar ++
  byElement 0x65 "blendmps" "blendmpd" spread2 ++
  byElement 0x77 "permi2ps" "permi2pd" spread2 ++ byElement 0x7f "permt2ps" "permt2pd" spread2 ++
  byElement 0x88 "expandps" "expandpd" (fun name bytes => (unary name).withUnit bytes) ++
  byElement 0x8a "compressps" "compresspd" (fun name bytes => (store name).withUnit bytes) ++
  (byElement 0xc8 "exp2ps" "exp2pd" silent ++ byElement 0xca "rcp28ps" "rcp28pd" silent ++
   byElement 0xcc "rsqrt28ps" "rsqrt28pd" silent).map (·.of [.zmm]) ++
  byElement 0xcb "rcp28ss" "rcp28sd" (fun name bytes => (scalar name bytes).withRounding .silent) ++
  byElement 0xcd "rsqrt28ss" "rsqrt28sd" (fun name bytes => (scalar name bytes).withRounding .silent) ++
  [(withF2 0x72 (spread2 "Vcvtne2ps2bf16" 4)).narrow, (withF3 0x52 (spread2 "Vdpbf16ps" 4)).narrow] ++
  shrinking (fun form => (withF3 0x72 form).narrow) ((conversion "Vcvtneps2bf16" .half .full).withBroadcast 4) ++
  [((0x9a : UInt8), "V4fmaddps"), (0xaa, "V4fnmaddps")].map (fun (op, name) =>
    ((withF2 op (((Form.named name [full, extra, .memory 16] 1).withMask).onMemory)).narrow).of [.zmm]) ++
  [((0x9b : UInt8), "V4fmaddss"), (0xab, "V4fnmaddss")].map (fun (op, name) =>
    (withF2 op (((Form.named name [xmm, xmmExtra, .memory 16] 1).withMask).onMemory)).narrow)

/-- Integer instructions. -/
def integers38 : List Entry :=
  let spread (name : String) (bytes : Nat) : Form := (unary name).withBroadcast bytes
  let spread2 (name : String) (bytes : Nat) : Form := (binary name).withBroadcast bytes
  let both (op : UInt8) (stem : String) : List Entry := byElement op (stem ++ "d") (stem ++ "q") spread2
  let quads : List (UInt8 × String) :=
    [(0x39, "Vpminsq"), (0x3b, "Vpminuq"), (0x3d, "Vpmaxsq"), (0x3f, "Vpmaxuq"), (0x40, "Vpmullq")]
  (Family.integers38 ++ Family.vectorIntegers38).map
    (fun (op, stem, bytes) => sizedRow op bytes (binary ("V" ++ stem))) ++
  quads.map (fun (op, name) => (with66 op (spread2 name 8)).widened) ++
  Family.absolute.map (fun (op, stem, bytes) => sizedRow op bytes (unary ("V" ++ stem))) ++
  [(with66 0x1f (spread "Vpabsq" 8)).widened] ++
  Family.widening.flatMap (fun (op, stem, lanes) =>
    [(with66 op (conversion ("Vpmovsx" ++ stem) .full lanes)),
     (with66 (op + 0x10) (conversion ("Vpmovzx" ++ stem) .full lanes))].map
      fun e => if op = 0x25 then e.narrow else e) ++
  Family.quadComparisons.map
    (fun (op, stem) => (with66 op ((compare ("V" ++ stem)).withBroadcast 8)).widened) ++
  Family.cipherRounds.map (fun (op, stem) => with66 op (VectorMap.binary ("V" ++ stem))) ++
  [(with66 0x10 (binary "Vpsrlvw")).widened, (with66 0x11 (binary "Vpsravw")).widened,
   (with66 0x12 (binary "Vpsllvw")).widened,
   (with66 0x2a (VectorMap.unary "Vmovntdqa").onMemory).narrow] ++
  both 0x14 "prorv" ++ both 0x15 "prolv" ++ both 0x45 "psrlv" ++ both 0x46 "psrav" ++ both 0x47 "psllv" ++
  (both 0x36 "perm").map (·.of long) ++
  byElement 0x44 "plzcntd" "plzcntq" spread ++ bySmallElement 0x54 "popcntb" "popcntw" unary ++
  byElement 0x55 "popcntd" "popcntq" spread ++
  byElement 0xc4 "pconflictd" "pconflictq" spread ++
  both 0x64 "pblendm" ++ bySmallElement 0x66 "pblendmb" "pblendmw" binary ++
  [(with66 0x70 (binary "Vpshldvw")).widened, (with66 0x72 (binary "Vpshrdvw")).widened] ++
  both 0x71 "pshldv" ++ both 0x73 "pshrdv" ++
  bySmallElement 0x75 "permi2b" "permi2w" binary ++
  both 0x76 "permi2" ++ bySmallElement 0x7d "permt2b" "permt2w" binary ++
  both 0x7e "permt2" ++ bySmallElement 0x8d "permb" "permw" binary ++
  [(with66 0x83 (spread2 "Vpmultishiftqb" 8)).widened,
   (with66 0xb4 (spread2 "Vpmadd52luq" 8)).widened, (with66 0xb5 (spread2 "Vpmadd52huq" 8)).widened,
   (with66 0xcf (binary "Vgf2p8mulb")).narrow,
   (with66 0x50 (spread2 "Vpdpbusd" 4)).narrow, (with66 0x51 (spread2 "Vpdpbusds" 4)).narrow,
   (with66 0x52 (spread2 "Vpdpwssd" 4)).narrow, (with66 0x53 (spread2 "Vpdpwssds" 4)).narrow,
   ((withF2 0x52 ((Form.named "Vp4dpwssd" [full, extra, .memory 16] 1).withMask).onMemory).narrow).of [.zmm],
   ((withF2 0x53 ((Form.named "Vp4dpwssds" [full, extra, .memory 16] 1).withMask).onMemory).narrow).of [.zmm],
   (with66 0x62 ((unary "Vpexpandb").withUnit 1)).narrow,
   (with66 0x62 ((unary "Vpexpandw").withUnit 2)).widened,
   (with66 0x63 ((store "Vpcompressb").withUnit 1)).narrow,
   (with66 0x63 ((store "Vpcompressw").withUnit 2)).widened] ++
  byElement 0x89 "pexpandd" "pexpandq" (fun name bytes => (unary name).withUnit bytes) ++
  byElement 0x8b "pcompressd" "pcompressq" (fun name bytes => (store name).withUnit bytes)

/-- The table behind 0F 38. -/
def table38 : List Entry :=
  products ++ gathers ++ narrowing ++ broadcasts ++ masks38 ++ floats38 ++ integers38

/-! ## Behind 0F 3A -/

/-- The comparisons of integers, by their constant. -/
def integerComparisons : List String :=
  ["eq", "lt", "le", "false", "neq", "nlt", "nle", "true"]

/-- A comparison of integers by a constant. -/
def integerCompare (kind : String) (bytes : Nat) : Form :=
  ((compareConstant ("Vpcmp" ++ kind)).withBroadcast bytes).spelled
    (Family.compared "vpcmp" integerComparisons kind)

/-- Instructions on floating point elements. -/
def floats3A : List Entry :=
  let silent (name : String) (bytes : Nat) : Form :=
    ((unaryConstant name).withBroadcast bytes).withRounding .silent
  let silent2 (name : String) (bytes : Nat) : Form :=
    ((binaryConstant name).withBroadcast bytes).withRounding .silent
  let silentScalar (name : String) (bytes : Nat) : Form := (scalarConstant name bytes).withRounding .silent
  let classes (name : String) (bytes : Nat) : Form :=
    (((Form.named name [.opmask, rm, .constant] 1).withMask .merging).withBroadcast bytes).sized
  let scalarClasses (name : String) (bytes : Nat) : Form :=
    (Form.named name [.opmask, xmmRm bytes, .constant] 1).withMask .merging
  let halves (op : UInt8) (name : String) (form : String → Nat → Form) : Entry :=
    (plain op (form name 2)).narrow
  [((with66 0x01 ((unaryConstant "Vpermpd").withBroadcast 8)).widened).of long,
   (with66 0x04 ((unaryConstant "Vpermilps").withBroadcast 4)).narrow,
   (with66 0x05 ((unaryConstant "Vpermilpd").withBroadcast 8)).widened,
   (with66 0x08 (silent "Vrndscaleps" 4)).narrow, (with66 0x09 (silent "Vrndscalepd" 8)).widened,
   (with66 0x0a (silentScalar "Vrndscaless" 4)).narrow, (with66 0x0b (silentScalar "Vrndscalesd" 8)).widened,
   halves 0x08 "Vrndscaleph" silent, halves 0x0a "Vrndscalesh" silentScalar,
   (with66 0x1d (((Form.named "Vcvtps2ph" [.vectorRm .half none, full, .constant] 1).withMask).withRounding .silent)).narrow] ++
  (byElement 0x23 "shuff32x4" "shuff64x2" (fun name bytes => (binaryConstant name).withBroadcast bytes)).map (·.of long) ++
  byElement 0x26 "getmantps" "getmantpd" silent ++ byElement 0x27 "getmantss" "getmantsd" silentScalar ++
  byElement 0x50 "rangeps" "rangepd" silent2 ++ byElement 0x51 "rangess" "rangesd" silentScalar ++
  byElement 0x54 "fixupimmps" "fixupimmpd" silent2 ++ byElement 0x55 "fixupimmss" "fixupimmsd" silentScalar ++
  byElement 0x56 "reduceps" "reducepd" silent ++ byElement 0x57 "reducess" "reducesd" silentScalar ++
  byElement 0x66 "fpclassps" "fpclasspd" classes ++ byElement 0x67 "fpclassss" "fpclasssd" scalarClasses ++
  [halves 0x26 "Vgetmantph" silent, halves 0x27 "Vgetmantsh" silentScalar, halves 0x56 "Vreduceph" silent,
   halves 0x57 "Vreducesh" silentScalar, halves 0x66 "Vfpclassph" classes,
   halves 0x67 "Vfpclasssh" scalarClasses,
   (plain 0xc2 ((comparing "ph" ((compareConstant "Vcmpph").withBroadcast 2)).withRounding .silent)).narrow,
   (withF3 0xc2 ((comparing "sh" ((Form.named "Vcmpsh" [.opmask, xmmExtra, xmmRm 2, .constant] 1).withMask
     .merging)).withRounding .silent)).narrow]

/-- Moves of parts of registers. -/
def parts3A : List Entry :=
  let insert (name : String) (lanes : Lanes) : Form :=
    (Form.named name [full, extra, .vectorRm lanes none, .constant] 1).withMask
  let extract (name : String) (lanes : Lanes) : Form :=
    (Form.named name [.vectorRm lanes none, full, .constant] 1).withMask
  (byElement 0x18 "insertf32x4" "insertf64x2" (fun name _ => insert name .xmm) ++
   byElement 0x19 "extractf32x4" "extractf64x2" (fun name _ => extract name .xmm) ++
   byElement 0x38 "inserti32x4" "inserti64x2" (fun name _ => insert name .xmm) ++
   byElement 0x39 "extracti32x4" "extracti64x2" (fun name _ => extract name .xmm)).map (·.of long) ++
  (byElement 0x1a "insertf32x8" "insertf64x4" (fun name _ => insert name .ymm) ++
   byElement 0x1b "extractf32x8" "extractf64x4" (fun name _ => extract name .ymm) ++
   byElement 0x3a "inserti32x8" "inserti64x4" (fun name _ => insert name .ymm) ++
   byElement 0x3b "extracti32x8" "extracti64x4" (fun name _ => extract name .ymm)).map (·.of [.zmm])

/-- Integer instructions. -/
def integers3A : List Entry :=
  let spread (name : String) (bytes : Nat) : Form := (binaryConstant name).withBroadcast bytes
  let extract (name : String) (bytes : Nat) : Form := .named name [.rmAs .general bytes, xmm, .constant] 1
  let insert (name : String) (bytes : Nat) : Form :=
    .named name [xmm, xmmExtra, .rmAs .general bytes, .constant] 1
  [((with66 0x00 ((unaryConstant "Vpermq").withBroadcast 8)).widened).of long,
   with66 0x0f (binaryConstant "Vpalignr")] ++
  byElement 0x03 "alignd" "alignq" spread ++
  [(with66 0x1e (integerCompare "ud" 4)).narrow, (with66 0x1e (integerCompare "uq" 8)).widened,
   (with66 0x1f (integerCompare "d" 4)).narrow, (with66 0x1f (integerCompare "q" 8)).widened,
   (with66 0x3e (integerCompare "ub" 0)).narrow, (with66 0x3e (integerCompare "uw" 0)).widened,
   (with66 0x3f (integerCompare "b" 0)).narrow, (with66 0x3f (integerCompare "w" 0)).widened] ++
  byElement 0x25 "pternlogd" "pternlogq" spread ++
  (byElement 0x43 "shufi32x4" "shufi64x2" spread).map (·.of long) ++
  [(with66 0x42 (binaryConstant "Vdbpsadbw")).narrow,
   with66 0x44 ((VectorMap.binaryConstant "Vpclmulqdq").spelled (Family.carryless "vpclmul")),
   (with66 0x70 (binaryConstant "Vpshldw")).widened, (with66 0x72 (binaryConstant "Vpshrdw")).widened] ++
  byElement 0x71 "pshldd" "pshldq" spread ++ byElement 0x73 "pshrdd" "pshrdq" spread ++
  [(with66 0xce (spread "Vgf2p8affineqb" 8)).widened, (with66 0xcf (spread "Vgf2p8affineinvqb" 8)).widened] ++
  ([with66 0x14 (extract "Vpextrb" 1), with66 0x15 (extract "Vpextrw" 2)] ++
   byWidth (with66 0x16) (fun name => .named name [.rm .general, xmm, .constant] 1) "Vpextrd" "Vpextrq" ++
   [with66 0x17 (extract "Vextractps" 4), with66 0x20 (insert "Vpinsrb" 1),
    (with66 0x21 (VectorMap.scalarConstant "Vinsertps" 4)).narrow] ++
   byWidth (with66 0x22) (fun name => .named name [xmm, xmmExtra, .rm .general, .constant] 1) "Vpinsrd" "Vpinsrq").map
    (·.of [.xmm])

/-- The table behind 0F 3A. -/
def table3A : List Entry :=
  floats3A ++ parts3A ++ integers3A

/-! ## Elements of two bytes -/

/-- An instruction on packed elements of two bytes. -/
def halves (name : String) : Form := (binary name).withBroadcast 2

/-- The same with one source. -/
def halvesUnary (name : String) : Form := (unary name).withBroadcast 2

/-- The table of map 5. -/
def table5 : List Entry :=
  let growing (name : String) (lanes : Lanes) : Form := (conversion name .full lanes).withBroadcast 2
  let shrink (name : String) (lanes : Lanes) (bytes : Nat) : Form :=
    ((conversion name lanes .full).withBroadcast bytes).withRounding
  [(withF3 0x10 (((Form.named "Vmovsh" [xmm, xmmRm 2] 1).withMask).onMemory)).narrow,
   (withF3 0x10 (scalar "Vmovsh" 2).onRegister).narrow,
   (withF3 0x11 (((Form.named "Vmovsh" [xmmRm 2, xmm] 1).withMask).onMemory)).narrow,
   (withF3 0x11 (((Form.named "Vmovsh" [xmmRm 2, xmmExtra, xmm] 1).withMask).onRegister)).narrow,
   (plain 0x1d ((scalar "Vcvtss2sh" 4).withRounding)).narrow,
   withF3 0x2a (fromGeneral "Vcvtsi2sh"), withF3 0x2c (toGeneral "Vcvttsh2si" 2 .silent),
   withF3 0x2d (toGeneral "Vcvtsh2si" 2 .any),
   (plain 0x2e (scalarCompare "Vucomish" 2)).narrow, (plain 0x2f (scalarCompare "Vcomish" 2)).narrow,
   (plain 0x51 ((halvesUnary "Vsqrtph").withRounding)).narrow,
   (withF3 0x51 ((scalar "Vsqrtsh" 2).withRounding)).narrow] ++
  Family.arithmetic.flatMap (fun (op, stem) =>
    [(plain op ((halves ("V" ++ stem ++ "ph")).withRounding (roundingOf stem))).narrow,
     (withF3 op ((scalar ("V" ++ stem ++ "sh") 2).withRounding (roundingOf stem))).narrow]) ++
  [(plain 0x5a ((growing "Vcvtph2pd" .quarter).withRounding .silent)).narrow,
   (with66 0x5a (shrink "Vcvtpd2ph" .quarter 8).sized).widened,
   (withF3 0x5a ((scalar "Vcvtsh2sd" 2).withRounding .silent)).narrow,
   (withF2 0x5a ((scalar "Vcvtsd2sh" 8).withRounding)).widened,
   (plain 0x5b (shrink "Vcvtqq2ph" .quarter 8).sized).widened,
   (with66 0x5b ((growing "Vcvtph2dq" .half).withRounding)).narrow,
   (withF3 0x5b ((growing "Vcvttph2dq" .half).withRounding .silent)).narrow,
   (with66 0x6e (.named "Vmovw" [xmm, .rmAs .general 2] 1)).of [.xmm],
   (with66 0x7e (.named "Vmovw" [.rmAs .general 2, xmm] 1)).of [.xmm],
   (plain 0x78 ((growing "Vcvttph2udq" .half).withRounding .silent)).narrow,
   (with66 0x78 ((growing "Vcvttph2uqq" .quarter).withRounding .silent)).narrow,
   withF3 0x78 (toGeneral "Vcvttsh2usi" 2 .silent),
   (plain 0x79 ((growing "Vcvtph2udq" .half).withRounding)).narrow,
   (with66 0x79 ((growing "Vcvtph2uqq" .quarter).withRounding)).narrow,
   withF3 0x79 (toGeneral "Vcvtsh2usi" 2 .any),
   (with66 0x7a ((growing "Vcvttph2qq" .quarter).withRounding .silent)).narrow,
   (withF2 0x7a (shrink "Vcvtuqq2ph" .quarter 8).sized).widened,
   (with66 0x7b ((growing "Vcvtph2qq" .quarter).withRounding)).narrow, withF3 0x7b (fromGeneral "Vcvtusi2sh"),
   (plain 0x7c ((halvesUnary "Vcvttph2uw").withRounding .silent)).narrow,
   (with66 0x7c ((halvesUnary "Vcvttph2w").withRounding .silent)).narrow,
   (plain 0x7d ((halvesUnary "Vcvtph2uw").withRounding)).narrow,
   (with66 0x7d ((halvesUnary "Vcvtph2w").withRounding)).narrow,
   (withF3 0x7d ((halvesUnary "Vcvtw2ph").withRounding)).narrow,
   (withF2 0x7d ((halvesUnary "Vcvtuw2ph").withRounding)).narrow] ++
  shrinking (fun form => (with66 0x1d form).narrow) (shrink "Vcvtps2phx" .half 4) ++
  shrinking (fun form => (plain 0x5b form).narrow) (shrink "Vcvtdq2ph" .half 4) ++
  shrinking (fun form => (withF2 0x7a form).narrow) (shrink "Vcvtudq2ph" .half 4)

/-- The table of map 6. -/
def table6 : List Entry :=
  let complex (name : String) : Form :=
    { ((binary name).withBroadcast 4).withRounding with distinct := .first }
  let complexScalar (name : String) : Form := { (scalar name 4).withRounding with distinct := .first }
  [(with66 0x13 (((conversion "Vcvtph2psx" .full .half).withBroadcast 2).withRounding .silent)).narrow,
   (plain 0x13 ((scalar "Vcvtsh2ss" 2).withRounding .silent)).narrow,
   (with66 0x2c ((halves "Vscalefph").withRounding)).narrow,
   (with66 0x2d ((scalar "Vscalefsh" 2).withRounding)).narrow,
   (with66 0x42 ((halvesUnary "Vgetexpph").withRounding .silent)).narrow,
   (with66 0x43 ((scalar "Vgetexpsh" 2).withRounding .silent)).narrow,
   (with66 0x4c (halvesUnary "Vrcpph")).narrow, (with66 0x4d (scalar "Vrcpsh" 2)).narrow,
   (with66 0x4e (halvesUnary "Vrsqrtph")).narrow, (with66 0x4f (scalar "Vrsqrtsh" 2)).narrow,
   (withF3 0x56 (complex "Vfmaddcph")).narrow, (withF2 0x56 (complex "Vfcmaddcph")).narrow,
   (withF3 0x57 (complexScalar "Vfmaddcsh")).narrow, (withF2 0x57 (complexScalar "Vfcmaddcsh")).narrow,
   (withF3 0xd6 (complex "Vfmulcph")).narrow, (withF2 0xd6 (complex "Vfcmulcph")).narrow,
   (withF3 0xd7 (complexScalar "Vfmulcsh")).narrow, (withF2 0xd7 (complexScalar "Vfcmulcsh")).narrow] ++
  Family.orders.flatMap fun (high, order) => Family.products.map fun (low, stem, isSingle) =>
    let name := "Vf" ++ stem ++ order
    if isSingle then (with66 (high + low) ((scalar (name ++ "sh") 2).withRounding)).narrow
    else (with66 (high + low) ((halves (name ++ "ph")).withRounding)).narrow

/-- The table that the low three bits of the byte after 62 select. -/
def table? (first : UInt8) : Option (List Entry) :=
  match first &&& 7 with
  | 1 => some table
  | 2 => some table38
  | 3 => some table3A
  | 5 => some table5
  | 6 => some table6
  | _ => none

end KernelOffsets.Encoding.MaskedMap

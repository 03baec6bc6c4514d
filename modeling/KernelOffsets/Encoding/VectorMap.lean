/-
The forms behind the vector prefixes C5 and C4, in three tables for the maps
behind 0F, 0F 38 and 0F 3A. Most of them are those of `MediaMap` with one
source more, under names that start with V; besides them there are
instructions on general registers, masks and tiles.
-/
import KernelOffsets.Encoding.Family

namespace KernelOffsets.Encoding.VectorMap

open Entry

/-! ## Forms -/

/-- A vector register of full length. -/
def full : OperandCode := .vector .full

/-- The vector register of full length named by the prefix. -/
def extra : OperandCode := .vectorExtra .full

/-- A vector register of full length or memory. -/
def rm : OperandCode := .vectorRm .full none

/-- A vector register of sixteen bytes. -/
def xmm : OperandCode := .vector .xmm

/-- The vector register of sixteen bytes named by the prefix. -/
def xmmExtra : OperandCode := .vectorExtra .xmm

/-- A vector register of sixteen bytes, or memory of a number of bytes. -/
def xmmRm (bytes : Nat) : OperandCode := .vectorRm .xmm (some bytes)

/-- An instruction with one source. -/
def unary (name : String) : Form := .named name [full, rm] 1

/-- An instruction with two sources. -/
def binary (name : String) : Form := .named name [full, extra, rm] 1

/-- An instruction with one source and a constant. -/
def unaryConstant (name : String) : Form := .named name [full, rm, .constant] 1

/-- An instruction with two sources and a constant. -/
def binaryConstant (name : String) : Form := .named name [full, extra, rm, .constant] 1

/-- An instruction with three sources, the last of which is named by a constant. -/
def ternary (name : String) : Form := .named name [full, extra, rm, .vectorConstant .full] 1

/-- An instruction on single elements with two sources. -/
def scalar (name : String) (bytes : Nat) : Form := .named name [xmm, xmmExtra, xmmRm bytes] 1

/-- The same with a constant. -/
def scalarConstant (name : String) (bytes : Nat) : Form :=
  .named name [xmm, xmmExtra, xmmRm bytes, .constant] 1

/-- A store of a whole register. -/
def store (name : String) : Form := .named name [rm, full] 1

/-- A comparison of two operands. -/
def compare (name : String) : Form := .named name [full, rm]

/-- A comparison of single elements. -/
def scalarCompare (name : String) (bytes : Nat) : Form := .named name [xmm, xmmRm bytes]

/-- A move of elements of a vector register to a general register. -/
def extract (name : String) : Form := (Form.named name [.reg .general, rm] 1).onRegister

/-- A conversion of one element to a general register. -/
def toGeneral (name : String) (bytes : Nat) : Form := .named name [.reg .general, xmmRm bytes] 1

/-- A conversion of a general register to one element. -/
def fromGeneral (name : String) : Form := (Form.named name [xmm, xmmExtra, .rm .general] 1).sized

/-- An instruction on packed elements of four and of eight bytes. -/
def packed (op : UInt8) (stem : String) (form : String → Form) : List Entry :=
  [plain op (form ("V" ++ stem ++ "ps")), with66 op (form ("V" ++ stem ++ "pd"))]

/-- The same on single elements. -/
def single (op : UInt8) (stem : String) (form : String → Nat → Form) : List Entry :=
  [withF3 op (form ("V" ++ stem ++ "ss") 4), withF2 op (form ("V" ++ stem ++ "sd") 8)]

/-- The mnemonics of a comparison of one kind. -/
def comparing (kind : String) (form : Form) : Form :=
  form.spelled (Family.compared "vcmp" Family.comparisons kind)

/-- A row behind 66 whose wide bit tells elements of four and of eight bytes apart. -/
def byElement (op : UInt8) (narrow wide : String) (form : String → Form) : List Entry :=
  [(with66 op (form ("V" ++ narrow))).narrow, (with66 op (form ("V" ++ wide))).widened]

/-! ## Behind 0F -/

/-- Moves. -/
def moves : List Entry :=
  packed 0x10 "movu" unary ++ packed 0x11 "movu" store ++
  [withF3 0x10 (Form.named "Vmovss" [xmm, xmmRm 4] 1).onMemory, withF3 0x10 (scalar "Vmovss" 4).onRegister,
   withF2 0x10 (Form.named "Vmovsd" [xmm, xmmRm 8] 1).onMemory, withF2 0x10 (scalar "Vmovsd" 8).onRegister,
   withF3 0x11 (Form.named "Vmovss" [xmmRm 4, xmm] 1).onMemory,
   withF3 0x11 (Form.named "Vmovss" [xmmRm 4, xmmExtra, xmm] 1).onRegister,
   withF2 0x11 (Form.named "Vmovsd" [xmmRm 8, xmm] 1).onMemory,
   withF2 0x11 (Form.named "Vmovsd" [xmmRm 8, xmmExtra, xmm] 1).onRegister,
   (plain 0x12 (scalar "Vmovlps" 8).onMemory).of [.xmm],
   (plain 0x12 (scalar "Vmovhlps" 16).onRegister).of [.xmm],
   (with66 0x12 (scalar "Vmovlpd" 8).onMemory).of [.xmm],
   withF3 0x12 (unary "Vmovsldup"),
   (withF2 0x12 (.named "Vmovddup" [full, .vectorRm .full (some 8)] 1)).of [.xmm],
   (withF2 0x12 (unary "Vmovddup")).of [.ymm],
   (plain 0x13 (Form.named "Vmovlps" [xmmRm 8, xmm] 1).onMemory).of [.xmm],
   (with66 0x13 (Form.named "Vmovlpd" [xmmRm 8, xmm] 1).onMemory).of [.xmm],
   (plain 0x16 (scalar "Vmovhps" 8).onMemory).of [.xmm],
   (plain 0x16 (scalar "Vmovlhps" 16).onRegister).of [.xmm],
   (with66 0x16 (scalar "Vmovhpd" 8).onMemory).of [.xmm],
   withF3 0x16 (unary "Vmovshdup"),
   (plain 0x17 (Form.named "Vmovhps" [xmmRm 8, xmm] 1).onMemory).of [.xmm],
   (with66 0x17 (Form.named "Vmovhpd" [xmmRm 8, xmm] 1).onMemory).of [.xmm]] ++
  packed 0x28 "mova" unary ++ packed 0x29 "mova" store ++
  packed 0x2b "movnt" (fun name => (store name).onMemory) ++
  packed 0x50 "movmsk" extract ++
  (byWidth (with66 0x6e) (fun name => .named name [xmm, .rm .general] 1) "Vmovd" "Vmovq").map (·.of [.xmm]) ++
  [with66 0x6f (unary "Vmovdqa"), withF3 0x6f (unary "Vmovdqu")] ++
  (byWidth (with66 0x7e) (fun name => .named name [.rm .general, xmm] 1) "Vmovd" "Vmovq").map (·.of [.xmm]) ++
  [(withF3 0x7e (.named "Vmovq" [xmm, xmmRm 8] 1)).of [.xmm],
   with66 0x7f (store "Vmovdqa"), withF3 0x7f (store "Vmovdqu"),
   (with66 0xd6 (.named "Vmovq" [xmmRm 8, xmm] 1)).of [.xmm],
   with66 0xd7 (extract "Vpmovmskb"), with66 0xe7 (store "Vmovntdq").onMemory,
   withF2 0xf0 (unary "Vlddqu").onMemory,
   (with66 0xf7 (((Form.named "Vmaskmovdqu" [xmm, xmmRm 16] 0 [.memory none .di 16]).onRegister).showing
     .segment)).of [.xmm]]

/-- The clearing of the upper halves, or of whole registers. -/
def clearing (name : String) (count : Nat) : Form :=
  .named name [] 0 ((List.range count).map fun n => .named (.vector .zmm n))

/-- Conversions. -/
def conversions : List Entry :=
  [withF3 0x2a (fromGeneral "Vcvtsi2ss"), withF2 0x2a (fromGeneral "Vcvtsi2sd"),
   withF3 0x2c (toGeneral "Vcvttss2si" 4), withF2 0x2c (toGeneral "Vcvttsd2si" 8),
   withF3 0x2d (toGeneral "Vcvtss2si" 4), withF2 0x2d (toGeneral "Vcvtsd2si" 8),
   plain 0x5a (.named "Vcvtps2pd" [full, .vectorRm .half none] 1),
   with66 0x5a (Form.named "Vcvtpd2ps" [.vector .half, rm] 1).sized,
   withF3 0x5a (scalar "Vcvtss2sd" 4), withF2 0x5a (scalar "Vcvtsd2ss" 8),
   plain 0x5b (unary "Vcvtdq2ps"), with66 0x5b (unary "Vcvtps2dq"), withF3 0x5b (unary "Vcvttps2dq"),
   with66 0xe6 (Form.named "Vcvttpd2dq" [.vector .half, rm] 1).sized,
   withF3 0xe6 (.named "Vcvtdq2pd" [full, .vectorRm .half none] 1),
   withF2 0xe6 (Form.named "Vcvtpd2dq" [.vector .half, rm] 1).sized]

/-- Floating point arithmetic and comparisons. -/
def arithmetic : List Entry :=
  (Family.interleaving ++ Family.bitwise ++ Family.arithmetic).flatMap
    (fun (op, stem) => packed op stem binary) ++
  Family.arithmetic.flatMap (fun (op, stem) => single op stem scalar) ++
  [plain 0x2e (scalarCompare "Vucomiss" 4), with66 0x2e (scalarCompare "Vucomisd" 8),
   plain 0x2f (scalarCompare "Vcomiss" 4), with66 0x2f (scalarCompare "Vcomisd" 8)] ++
  packed 0x51 "sqrt" unary ++ single 0x51 "sqrt" scalar ++
  [plain 0x52 (unary "Vrsqrtps"), withF3 0x52 (scalar "Vrsqrtss" 4),
   plain 0x53 (unary "Vrcpps"), withF3 0x53 (scalar "Vrcpss" 4),
   with66 0x7c (binary "Vhaddpd"), withF2 0x7c (binary "Vhaddps"),
   with66 0x7d (binary "Vhsubpd"), withF2 0x7d (binary "Vhsubps"),
   plain 0xc2 (comparing "ps" (binaryConstant "Vcmpps")),
   with66 0xc2 (comparing "pd" (binaryConstant "Vcmppd")),
   withF3 0xc2 (comparing "ss" (scalarConstant "Vcmpss" 4)),
   withF2 0xc2 (comparing "sd" (scalarConstant "Vcmpsd" 8)),
   plain 0xc6 (binaryConstant "Vshufps"), with66 0xc6 (binaryConstant "Vshufpd"),
   with66 0xd0 (binary "Vaddsubpd"), withF2 0xd0 (binary "Vaddsubps")]

/-- Integer instructions. -/
def integers : List Entry :=
  (Family.integers ++ Family.vectorIntegers ++ Family.integerComparisons).map
    (fun (op, stem, _) => with66 op (binary ("V" ++ stem))) ++
  (Family.integerBitwise ++ Family.differences).map (fun (op, stem) => with66 op (binary ("V" ++ stem))) ++
  Family.shifts.map (fun (op, stem, _) => with66 op (.named ("V" ++ stem) [full, extra, xmmRm 16] 1)) ++
  Family.constantShifts.map (fun (op, digit, stem, _) =>
    (with66 op (Form.named ("V" ++ stem) [extra, rm, .constant] 1).onRegister).slash digit) ++
  Family.byteShifts.map (fun (op, digit, stem) =>
    (with66 op (Form.named ("V" ++ stem) [extra, rm, .constant] 1).onRegister).slash digit) ++
  [with66 0x70 (unaryConstant "Vpshufd"), withF3 0x70 (unaryConstant "Vpshufhw"),
   withF2 0x70 (unaryConstant "Vpshuflw"),
   (with66 0xc4 (.named "Vpinsrw" [xmm, xmmExtra, .rmAs .general 2, .constant] 1)).of [.xmm],
   (with66 0xc5 (Form.named "Vpextrw" [.reg .general, xmmRm 16, .constant] 1).onRegister).of [.xmm]]

/-- The state of the vector registers. -/
def state : List Entry :=
  [((plain 0x77 (clearing "Vzeroupper" 16)).of [.xmm]).only64,
   ((plain 0x77 (clearing "Vzeroupper" 8)).of [.xmm]).only32,
   ((plain 0x77 (clearing "Vzeroall" 16)).of [.ymm]).only64,
   ((plain 0x77 (clearing "Vzeroall" 8)).of [.ymm]).only32,
   ((plain 0xae (Form.named "Vldmxcsr" [.memory 4]).onMemory).slash 2).of [.xmm],
   ((plain 0xae (Form.named "Vstmxcsr" [.memory 4] 1).onMemory).slash 3).of [.xmm]]

/-- The four sizes of an instruction on masks: words, quad words, bytes, double words. -/
def maskSizes (op : UInt8) (stem : String) (lengths : List VectorWidth) (form : String → Nat → Form) : List Entry :=
  [((plain op (form (stem ++ "w") 2)).narrow).of lengths,
   ((plain op (form (stem ++ "q") 8)).widened).of lengths,
   ((with66 op (form (stem ++ "b") 1)).narrow).of lengths,
   ((with66 op (form (stem ++ "d") 4)).widened).of lengths]

/-- Instructions on masks. -/
def masks : List Entry :=
  let binary (name : String) (_ : Nat) : Form :=
    (Form.named name [.opmask, .opmaskExtra, .opmaskRm 0] 1).onRegister
  let unary (name : String) (_ : Nat) : Form := (Form.named name [.opmask, .opmaskRm 0] 1).onRegister
  let compare (name : String) (_ : Nat) : Form := (Form.named name [.opmask, .opmaskRm 0]).onRegister
  let toMask (name : String) (s : Size) : Form := (Form.named name [.opmask, .base s] 1).onRegister
  let fromMask (name : String) (s : Size) : Form := (Form.named name [.reg s, .opmaskRm 0] 1).onRegister
  [((0x41 : UInt8), "Kand"), (0x42, "Kandn"), (0x45, "Kor"), (0x46, "Kxnor"), (0x47, "Kxor"),
   (0x4a, "Kadd")].flatMap
    (fun (op, stem) => maskSizes op stem [.ymm] binary) ++
  [((plain 0x4b (binary "Kunpckwd" 0)).narrow).of [.ymm],
   ((plain 0x4b (binary "Kunpckdq" 0)).widened).of [.ymm],
   ((with66 0x4b (binary "Kunpckbw" 0)).narrow).of [.ymm]] ++
  maskSizes 0x44 "Knot" [.xmm] unary ++
  maskSizes 0x90 "Kmov" [.xmm] (fun name bytes => .named name [.opmask, .opmaskRm bytes] 1) ++
  maskSizes 0x91 "Kmov" [.xmm] (fun name bytes => (Form.named name [.opmaskRm bytes, .opmask] 1).onMemory) ++
  maskSizes 0x98 "Kortest" [.xmm] compare ++ maskSizes 0x99 "Ktest" [.xmm] compare ++
  [((plain 0x92 (toMask "Kmovw" .dword)).narrow).of [.xmm],
   ((with66 0x92 (toMask "Kmovb" .dword)).narrow).of [.xmm],
   ((withF2 0x92 (toMask "Kmovd" .dword)).narrow).of [.xmm],
   (((withF2 0x92 (toMask "Kmovq" .qword)).widened).of [.xmm]).only64,
   ((plain 0x93 (fromMask "Kmovw" .dword)).narrow).of [.xmm],
   ((with66 0x93 (fromMask "Kmovb" .dword)).narrow).of [.xmm],
   ((withF2 0x93 (fromMask "Kmovd" .dword)).narrow).of [.xmm],
   (((withF2 0x93 (fromMask "Kmovq" .qword)).widened).of [.xmm]).only64]

/-- The table behind 0F. -/
def table : List Entry :=
  moves ++ conversions ++ arithmetic ++ integers ++ state ++ masks

/-! ## Behind 0F 38 -/

/-- A product with a sum, in all orders of the operands. -/
def products : List Entry :=
  Family.orders.flatMap fun (high, order) => Family.products.flatMap fun (low, stem, isSingle) =>
    let name := "f" ++ stem ++ order
    if isSingle then
      [((with66 (high + low) (scalar ("V" ++ name ++ "ss") 4)).narrow),
       ((with66 (high + low) (scalar ("V" ++ name ++ "sd") 8)).widened)]
    else byElement (high + low) (name ++ "ps") (name ++ "pd") binary

/-- A load of elements at addresses from a vector of indices, with the width of the result and of the indices. -/
def gather (name : String) (bytes : Nat) (result index : Lanes) : Form :=
  { (Form.named name [.vector result, .gather bytes index, .vectorExtra result] 1).onMemory with
    distinct := .all }

/-- The loads of elements; the indices have four bytes or eight. -/
def gathers : List Entry :=
  [(with66 0x90 (gather "Vpgatherdd" 4 .full .full)).narrow,
   (with66 0x90 (gather "Vpgatherdq" 8 .full .half)).widened,
   (with66 0x91 (gather "Vpgatherqd" 4 .half .full)).narrow,
   (with66 0x91 (gather "Vpgatherqq" 8 .full .full)).widened,
   (with66 0x92 (gather "Vgatherdps" 4 .full .full)).narrow,
   (with66 0x92 (gather "Vgatherdpd" 8 .full .half)).widened,
   (with66 0x93 (gather "Vgatherqps" 4 .half .full)).narrow,
   (with66 0x93 (gather "Vgatherqpd" 8 .full .full)).widened]

/-- Instructions on floating point elements. -/
def floats38 : List Entry :=
  let broadcast (name : String) (bytes : Nat) : Form := .named name [full, xmmRm bytes] 1
  let load (name : String) (bytes : Nat) : Form := (Form.named name [full, .memory bytes] 1).onMemory
  let maskedLoad (name : String) : Form := (binary name).onMemory
  let maskedStore (name : String) : Form := (Form.named name [rm, extra, full] 1).onMemory
  [(with66 0x0c (binary "Vpermilps")).narrow, (with66 0x0d (binary "Vpermilpd")).narrow,
   (with66 0x0e (compare "Vtestps")).narrow, (with66 0x0f (compare "Vtestpd")).narrow,
   (with66 0x13 (.named "Vcvtph2ps" [full, .vectorRm .half none] 1)).narrow,
   ((with66 0x16 (binary "Vpermps")).narrow).of [.ymm],
   (with66 0x18 (broadcast "Vbroadcastss" 4)).narrow,
   ((with66 0x19 (broadcast "Vbroadcastsd" 8)).narrow).of [.ymm],
   ((with66 0x1a (load "Vbroadcastf128" 16)).narrow).of [.ymm],
   (with66 0x2c (maskedLoad "Vmaskmovps")).narrow, (with66 0x2d (maskedLoad "Vmaskmovpd")).narrow,
   (with66 0x2e (maskedStore "Vmaskmovps")).narrow, (with66 0x2f (maskedStore "Vmaskmovpd")).narrow,
   (withF3 0x72 (Form.named "Vcvtneps2bf16" [.vector .half, rm] 1).sized).narrow,
   (plain 0xb0 (unary "Vcvtneoph2ps").onMemory).narrow, (with66 0xb0 (unary "Vcvtneeph2ps").onMemory).narrow,
   (withF3 0xb0 (unary "Vcvtneebf162ps").onMemory).narrow,
   (withF2 0xb0 (unary "Vcvtneobf162ps").onMemory).narrow,
   (with66 0xb1 (load "Vbcstnesh2ps" 2)).narrow, (withF3 0xb1 (load "Vbcstnebf162ps" 2)).narrow]

/-- Integer instructions. -/
def integers38 : List Entry :=
  let broadcast (name : String) (bytes : Nat) : Form := .named name [full, xmmRm bytes] 1
  (Family.integers38 ++ Family.vectorIntegers38).map
    (fun (op, stem, _) => with66 op (binary ("V" ++ stem))) ++
  (Family.horizontal38 ++ Family.quadComparisons ++ Family.cipherRounds).map
    (fun (op, stem) => with66 op (binary ("V" ++ stem))) ++
  Family.absolute.map (fun (op, stem, _) => with66 op (unary ("V" ++ stem))) ++
  Family.widening.flatMap (fun (op, stem, lanes) =>
    [with66 op (.named ("Vpmovsx" ++ stem) [full, .vectorRm lanes none] 1),
     with66 (op + 0x10) (.named ("Vpmovzx" ++ stem) [full, .vectorRm lanes none] 1)]) ++
  [with66 0x17 (compare "Vptest"), with66 0x2a (unary "Vmovntdqa").onMemory,
   ((with66 0x36 (binary "Vpermd")).narrow).of [.ymm], (with66 0x41 (unary "Vphminposuw")).of [.xmm]] ++
  byElement 0x45 "psrlvd" "psrlvq" binary ++ [(with66 0x46 (binary "Vpsravd")).narrow] ++
  byElement 0x47 "psllvd" "psllvq" binary ++
  [(with66 0x58 (broadcast "Vpbroadcastd" 4)).narrow, (with66 0x59 (broadcast "Vpbroadcastq" 8)).narrow,
   ((with66 0x5a (Form.named "Vbroadcasti128" [full, .memory 16] 1).onMemory).narrow).of [.ymm],
   (with66 0x78 (broadcast "Vpbroadcastb" 1)).narrow, (with66 0x79 (broadcast "Vpbroadcastw" 2)).narrow] ++
  byElement 0x8c "pmaskmovd" "pmaskmovq" (fun name => (binary name).onMemory) ++
  byElement 0x8e "pmaskmovd" "pmaskmovq" (fun name => (Form.named name [rm, extra, full] 1).onMemory) ++
  [(with66 0xb4 (binary "Vpmadd52luq")).widened, (with66 0xb5 (binary "Vpmadd52huq")).widened,
   (with66 0xcf (binary "Vgf2p8mulb")).narrow, (with66 0xdb (unary "Vaesimc")).of [.xmm]]

/-- Sums of products of small integers. -/
def sums38 : List Entry :=
  [(plain 0x50 (binary "Vpdpbuud")).narrow, (with66 0x50 (binary "Vpdpbusd")).narrow,
   (withF3 0x50 (binary "Vpdpbsud")).narrow, (withF2 0x50 (binary "Vpdpbssd")).narrow,
   (plain 0x51 (binary "Vpdpbuuds")).narrow, (with66 0x51 (binary "Vpdpbusds")).narrow,
   (withF3 0x51 (binary "Vpdpbsuds")).narrow, (withF2 0x51 (binary "Vpdpbssds")).narrow,
   (with66 0x52 (binary "Vpdpwssd")).narrow, (with66 0x53 (binary "Vpdpwssds")).narrow,
   (plain 0xd2 (binary "Vpdpwuud")).narrow, (with66 0xd2 (binary "Vpdpwusd")).narrow,
   (withF3 0xd2 (binary "Vpdpwsud")).narrow,
   (plain 0xd3 (binary "Vpdpwuuds")).narrow, (with66 0xd3 (binary "Vpdpwusds")).narrow,
   (withF3 0xd3 (binary "Vpdpwsuds")).narrow]

/-- Hashes and a block cipher. -/
def hashes38 : List Entry :=
  let half (name : String) : Form := (Form.named name [full, xmmRm 16] 1).onRegister
  [((withF2 0xcb (Form.named "Vsha512rnds2" [full, extra, xmmRm 16] 1).onRegister).narrow).of [.ymm],
   ((withF2 0xcc (half "Vsha512msg1")).narrow).of [.ymm],
   ((withF2 0xcd (unary "Vsha512msg2").onRegister).narrow).of [.ymm],
   ((plain 0xda (binary "Vsm3msg1")).narrow).of [.xmm], ((with66 0xda (binary "Vsm3msg2")).narrow).of [.xmm],
   (withF3 0xda (binary "Vsm4key4")).narrow, (withF2 0xda (binary "Vsm4rnds4")).narrow]

/-- Instructions on tiles. -/
def tiles : List Entry :=
  let product (name : String) : Form :=
    { (Form.named name [.tile, .tileRm, .tileExtra] 1).onRegister with distinct := .all }
  let load (name : String) : Form := (Form.named name [.tile, .strided] 1).onMemory
  [(plain 0x49 (Form.named "Ldtilecfg" [.memory 64]).onMemory).slash 0,
   (with66 0x49 (Form.named "Sttilecfg" [.memory 64] 1).onMemory).slash 0,
   ((plain 0x49 (Form.named "Tilerelease").onRegister).slash 0).ending 0,
   (withF2 0x49 (Form.named "Tilezero" [.tile] 1).onRegister).ending 0,
   with66 0x4b (load "Tileloaddt1"), withF2 0x4b (load "Tileloadd"),
   withF3 0x4b (Form.named "Tilestored" [.strided, .tile] 1).onMemory,
   withF3 0x5c (product "Tdpbf16ps"), withF2 0x5c (product "Tdpfp16ps"),
   plain 0x5e (product "Tdpbuud"), with66 0x5e (product "Tdpbusd"), withF3 0x5e (product "Tdpbsud"),
   withF2 0x5e (product "Tdpbssd"),
   plain 0x6c (product "Tcmmrlfp16ps"), with66 0x6c (product "Tcmmimfp16ps")].map
    fun e => ((e.narrow).of [.xmm]).only64

/-- The conditions in the names of compare and add. -/
def additionConditions : List String :=
  ["o", "no", "b", "nb", "z", "nz", "be", "nbe", "s", "ns", "p", "np", "l", "nl", "le", "nle"]

/-- Instructions on general registers. -/
def general38 : List Entry :=
  let shift (name : String) : Form := .named name [.reg .general, .rm .general, .extra .general] 1
  let select (name : String) : Form := .named name [.reg .general, .extra .general, .rm .general] 1
  let lowest (name : String) : Form := .named name [.extra .general, .rm .general] 1
  let conditionalAddition (condition : String) (n : Nat) : Entry :=
    (with66 (0xe0 + n.toUInt8) (Form.named ("Cmp" ++ condition ++ "xadd")
      [.rm .general, .reg .general, .extra .general] 2).onMemory).only64
  (additionConditions.zipIdx.map (fun (condition, n) => conditionalAddition condition n) ++
  [plain 0xf2 (select "Andn"),
   (plain 0xf3 (lowest "Blsr")).slash 1, (plain 0xf3 (lowest "Blsmsk")).slash 2,
   (plain 0xf3 (lowest "Blsi")).slash 3,
   plain 0xf5 (shift "Bzhi"), withF3 0xf5 (select "Pext"), withF2 0xf5 (select "Pdep"),
   withF2 0xf6 (.named "Mulx" [.reg .general, .extra .general, .rm .general] 2),
   plain 0xf7 (shift "Bextr"), with66 0xf7 (shift "Shlx"), withF3 0xf7 (shift "Sarx"),
   withF2 0xf7 (shift "Shrx")]).map
    fun (e : Entry) => e.of [.xmm]

/-- The table behind 0F 38. -/
def table38 : List Entry :=
  products ++ gathers ++ floats38 ++ integers38 ++ sums38 ++ hashes38 ++ tiles ++ general38

/-! ## Behind 0F 3A -/

/-- Instructions with four operands whose wide bit exchanges the last two. -/
def interchanged (op : UInt8) (name : String) (first : OperandCode) (second : OperandCode)
    (memory : OperandCode) (last : OperandCode) : List Entry :=
  [(with66 op (.named name [first, second, memory, last] 1)).narrow,
   (with66 op (.named name [first, second, last, memory] 1)).widened]

/-- Products with a sum in a register of its own. -/
def products3A : List Entry :=
  let both (op : UInt8) (name : String) : List Entry :=
    interchanged op name full extra rm (.vectorConstant .full)
  let one (op : UInt8) (name : String) (bytes : Nat) : List Entry :=
    interchanged op name xmm xmmExtra (xmmRm bytes) (.vectorConstant .xmm)
  both 0x5c "Vfmaddsubps" ++ both 0x5d "Vfmaddsubpd" ++ both 0x5e "Vfmsubaddps" ++ both 0x5f "Vfmsubaddpd" ++
  [((0x68 : UInt8), "Vfmadd"), (0x6c, "Vfmsub"), (0x78, "Vfnmadd"), (0x7c, "Vfnmsub")].flatMap fun (op,
   stem) =>
    both op (stem ++ "ps") ++ both (op + 1) (stem ++ "pd") ++ one (op + 2) (stem ++ "ss") 4 ++
    one (op + 3) (stem ++ "sd") 8

/-- Shifts of masks by a constant. -/
def maskShifts : List Entry :=
  let shift (name : String) : Form := (Form.named name [.opmask, .opmaskRm 0, .constant] 1).onRegister
  [(with66 0x30 (shift "Kshiftrb")).narrow, (with66 0x30 (shift "Kshiftrw")).widened,
   (with66 0x31 (shift "Kshiftrd")).narrow, (with66 0x31 (shift "Kshiftrq")).widened,
   (with66 0x32 (shift "Kshiftlb")).narrow, (with66 0x32 (shift "Kshiftlw")).widened,
   (with66 0x33 (shift "Kshiftld")).narrow, (with66 0x33 (shift "Kshiftlq")).widened].map (·.of [.xmm])

/-- Moves between vector registers and general registers or memory. -/
def transfers3A : List Entry :=
  let extract (name : String) (bytes : Nat) : Form := .named name [.rmAs .general bytes, xmm, .constant] 1
  let insert (name : String) (bytes : Nat) : Form :=
    .named name [xmm, xmmExtra, .rmAs .general bytes, .constant] 1
  ([with66 0x14 (extract "Vpextrb" 1), with66 0x15 (extract "Vpextrw" 2)] ++
   byWidth (with66 0x16) (fun name => .named name [.rm .general, xmm, .constant] 1) "Vpextrd" "Vpextrq" ++
   [with66 0x17 (extract "Vextractps" 4), with66 0x20 (insert "Vpinsrb" 1),
    with66 0x21 (scalarConstant "Vinsertps" 4)] ++
   byWidth (with66 0x22) (fun name => .named name [xmm, xmmExtra, .rm .general, .constant] 1) "Vpinsrd" "Vpinsrq").map
    (·.of [.xmm]) ++
  [with66 0x18 (.named "Vinsertf128" [full, extra, xmmRm 16, .constant] 1),
   with66 0x19 (.named "Vextractf128" [xmmRm 16, full, .constant] 1),
   with66 0x38 (.named "Vinserti128" [full, extra, xmmRm 16, .constant] 1),
   with66 0x39 (.named "Vextracti128" [xmmRm 16, full, .constant] 1)].map (fun e => (e.narrow).of [.ymm]) ++
  [(with66 0x1d (.named "Vcvtps2ph" [.vectorRm .half none, full, .constant] 1)).narrow]

/-- Comparisons of strings. -/
def strings3A : List Entry :=
  let counting (name : String) : Form := .named name [xmm, xmmRm 16, .constant] 0 [.register .cx .general]
  let masking (name : String) : Form := .named name [xmm, xmmRm 16, .constant] 0 [.named (.vector .xmm 0)]
  (byWidth (with66 0x60) masking "Vpcmpestrm" "Vpcmpestrm64" ++ byWidth (with66 0x61) counting "Vpcmpestri" "Vpcmpestri64" ++
   [with66 0x62 (masking "Vpcmpistrm"), with66 0x63 (counting "Vpcmpistri")]).map (·.of [.xmm])

/-- Permutations, blends and the rest. -/
def permutations3A : List Entry :=
  let permutation (op : UInt8) (name : String) : List Entry :=
    [(with66 op (.named name [full, extra, rm, .vectorConstant .full, .lowBits] 1)).narrow,
     (with66 op (.named name [full, extra, .vectorConstant .full, rm, .lowBits] 1)).widened]
  [((with66 0x00 (unaryConstant "Vpermq")).widened).of [.ymm],
   ((with66 0x01 (unaryConstant "Vpermpd")).widened).of [.ymm],
   (with66 0x02 (binaryConstant "Vpblendd")).narrow,
   (with66 0x04 (unaryConstant "Vpermilps")).narrow, (with66 0x05 (unaryConstant "Vpermilpd")).narrow,
   ((with66 0x06 (binaryConstant "Vperm2f128")).narrow).of [.ymm],
   with66 0x08 (unaryConstant "Vroundps"), with66 0x09 (unaryConstant "Vroundpd"),
   with66 0x0a (scalarConstant "Vroundss" 4), with66 0x0b (scalarConstant "Vroundsd" 8),
   with66 0x0c (binaryConstant "Vblendps"), with66 0x0d (binaryConstant "Vblendpd"),
   with66 0x0e (binaryConstant "Vpblendw"), with66 0x0f (binaryConstant "Vpalignr"),
   with66 0x40 (binaryConstant "Vdpps"), (with66 0x41 (binaryConstant "Vdppd")).of [.xmm],
   with66 0x42 (binaryConstant "Vmpsadbw"),
   with66 0x44 ((binaryConstant "Vpclmulqdq").spelled (Family.carryless "vpclmul")),
   ((with66 0x46 (binaryConstant "Vperm2i128")).narrow).of [.ymm]] ++
  permutation 0x48 "Vpermil2ps" ++ permutation 0x49 "Vpermil2pd" ++
  [(with66 0x4a (ternary "Vblendvps")).narrow, (with66 0x4b (ternary "Vblendvpd")).narrow,
   (with66 0x4c (ternary "Vpblendvb")).narrow,
   (with66 0xce (binaryConstant "Vgf2p8affineqb")).widened,
   (with66 0xcf (binaryConstant "Vgf2p8affineinvqb")).widened,
   ((with66 0xde (binaryConstant "Vsm3rnds2")).narrow).of [.xmm],
   (with66 0xdf (unaryConstant "Vaeskeygenassist")).of [.xmm],
   (withF2 0xf0 (.named "Rorx" [.reg .general, .rm .general, .constant] 1)).of [.xmm]]

/-- The table behind 0F 3A. -/
def table3A : List Entry :=
  products3A ++ maskShifts ++ transfers3A ++ strings3A ++ permutations3A

/-- The table that the low five bits of the byte after C4 select. -/
def table? (first : UInt8) : Option (List Entry) :=
  match first &&& 0x1f with
  | 1 => some table
  | 2 => some table38
  | 3 => some table3A
  | _ => none

end KernelOffsets.Encoding.VectorMap

/-
The vector instructions behind 0F, 0F 38 and 0F 3A without a vector prefix:
those on the eight byte registers, which have no mandatory prefix, and those
on the sixteen byte registers. Behind 0F 0F the opcode is a constant at the
end of the instruction.
-/
import KernelOffsets.Encoding.Family

namespace KernelOffsets.Encoding.MediaMap

open Entry

/-! ## Forms -/

/-- A vector register or memory of a number of bytes. -/
def source (bytes : Nat) : OperandCode := .vectorRm .xmm (some bytes)

/-- A vector register. -/
def xmm : OperandCode := .vector .xmm

/-- An instruction whose result goes to the first of two vector operands. -/
def load (name : String) (bytes : Nat := 16) : Form :=
  .named name [xmm, source bytes] 1

/-- The same with a constant. -/
def loadConstant (name : String) (bytes : Nat := 16) : Form :=
  .named name [xmm, source bytes, .constant] 1

/-- A store of a vector register to a register or memory. -/
def store (name : String) (bytes : Nat := 16) : Form :=
  .named name [source bytes, xmm] 1

/-- A comparison of two vector operands. -/
def compare (name : String) (bytes : Nat := 16) : Form :=
  .named name [xmm, source bytes]

/-- An instruction whose result goes to the first of two operands of eight bytes. -/
def mmx (name : String) : Form :=
  .named name [.mmx, .mmxRm] 1

/-- The same with a constant. -/
def mmxConstant (name : String) : Form :=
  .named name [.mmx, .mmxRm, .constant] 1

/-- A move of elements of a vector register to a general register. -/
def extract (name : String) (vector : OperandCode) : Form :=
  (Form.named name [.reg .general, vector] 1).onRegister

/-- An instruction in four kinds: packed and single elements, of four and of eight bytes. -/
def kinds (op : UInt8) (stem : String) (form : String → Nat → Form) : List Entry :=
  [plain op (form (stem ++ "ps") 16), with66 op (form (stem ++ "pd") 16),
   withF3 op (form (stem ++ "ss") 4), withF2 op (form (stem ++ "sd") 8)]

/-- An instruction on packed elements of four and of eight bytes. -/
def packed (op : UInt8) (stem : String) (form : String → Form) : List Entry :=
  [plain op (form (stem ++ "ps")), with66 op (form (stem ++ "pd"))]

/-- An instruction on registers of eight and of sixteen bytes. -/
def both (op : UInt8) (stem : String) : List Entry :=
  [plain op (mmx stem.capitalize), with66 op (load stem.capitalize)]

/-- The mnemonics of a comparison of one kind. -/
def comparing (kind : String) (form : Form) : Form :=
  form.spelled (Family.compared "cmp" (Family.comparisons.take 8) kind)

/-- A store to the address in the destination index, under a mask in a register. -/
def maskedStore (name : String) (operands : List OperandCode) (bytes : Nat) : Form :=
  ((Form.named name operands 0 [.memory none .di bytes]).onRegister).showing .segment

/-! ## Behind 0F -/

/-- Moves. -/
def moves : List Entry :=
  packed 0x10 "Movu" (load ·) ++ [withF3 0x10 (load "Movss" 4), withF2 0x10 (load "Movsd" 8)] ++
  packed 0x11 "Movu" (store ·) ++ [withF3 0x11 (store "Movss" 4), withF2 0x11 (store "Movsd" 8)] ++
  [plain 0x12 (load "Movlps" 8).onMemory, plain 0x12 (load "Movhlps").onRegister,
   with66 0x12 (load "Movlpd" 8).onMemory, withF3 0x12 (load "Movsldup"), withF2 0x12 (load "Movddup" 8),
   plain 0x13 (store "Movlps" 8).onMemory, with66 0x13 (store "Movlpd" 8).onMemory,
   plain 0x16 (load "Movhps" 8).onMemory, plain 0x16 (load "Movlhps").onRegister,
   with66 0x16 (load "Movhpd" 8).onMemory, withF3 0x16 (load "Movshdup"),
   plain 0x17 (store "Movhps" 8).onMemory, with66 0x17 (store "Movhpd" 8).onMemory] ++
  packed 0x28 "Mova" (load ·) ++ packed 0x29 "Mova" (store ·) ++
  packed 0x2b "Movnt" (fun name => (store name).onMemory) ++
  [withF3 0x2b (store "Movntss" 4).onMemory, withF2 0x2b (store "Movntsd" 8).onMemory] ++
  packed 0x50 "Movmsk" (fun name => extract name (source 16)) ++
  byWidth (plain 0x6e) (fun name => .named name [.mmx, .rm .general] 1) "Movd" "Movq" ++
  byWidth (with66 0x6e) (fun name => .named name [xmm, .rm .general] 1) "Movd" "Movq" ++
  [plain 0x6f (mmx "Movq"), with66 0x6f (load "Movdqa"), withF3 0x6f (load "Movdqu")] ++
  byWidth (plain 0x7e) (fun name => .named name [.rm .general, .mmx] 1) "Movd" "Movq" ++
  byWidth (with66 0x7e) (fun name => .named name [.rm .general, xmm] 1) "Movd" "Movq" ++
  [withF3 0x7e (load "Movq" 8),
   plain 0x7f (.named "Movq" [.mmxRm, .mmx] 1), with66 0x7f (store "Movdqa"), withF3 0x7f (store "Movdqu"),
   with66 0xd6 (store "Movq" 8),
   withF3 0xd6 (Form.named "Movq2dq" [xmm, .mmxRm] 1).onRegister,
   withF2 0xd6 (Form.named "Movdq2q" [.mmx, source 16] 1).onRegister,
   plain 0xd7 (extract "Pmovmskb" .mmxRm), with66 0xd7 (extract "Pmovmskb" (source 16)),
   plain 0xe7 (Form.named "Movntq" [.mmxRm, .mmx] 1).onMemory, with66 0xe7 (store "Movntdq").onMemory,
   withF2 0xf0 (load "Lddqu").onMemory,
   plain 0xf7 (maskedStore "Maskmovq" [.mmx, .mmxRm] 8),
   with66 0xf7 (maskedStore "Maskmovdqu" [xmm, source 16] 16)]

/-- Conversions. -/
def conversions : List Entry :=
  [plain 0x2a (.named "Cvtpi2ps" [xmm, .mmxRm] 1), with66 0x2a (.named "Cvtpi2pd" [xmm, .mmxRm] 1),
   withF3 0x2a (Form.named "Cvtsi2ss" [xmm, .rm .general] 1).sized,
   withF2 0x2a (Form.named "Cvtsi2sd" [xmm, .rm .general] 1).sized,
   plain 0x2c (.named "Cvttps2pi" [.mmx, source 8] 1), with66 0x2c (.named "Cvttpd2pi" [.mmx, source 16] 1),
   withF3 0x2c (.named "Cvttss2si" [.reg .general, source 4] 1),
   withF2 0x2c (.named "Cvttsd2si" [.reg .general, source 8] 1),
   plain 0x2d (.named "Cvtps2pi" [.mmx, source 8] 1), with66 0x2d (.named "Cvtpd2pi" [.mmx, source 16] 1),
   withF3 0x2d (.named "Cvtss2si" [.reg .general, source 4] 1),
   withF2 0x2d (.named "Cvtsd2si" [.reg .general, source 8] 1),
   plain 0x5a (load "Cvtps2pd" 8), with66 0x5a (load "Cvtpd2ps"),
   withF3 0x5a (load "Cvtss2sd" 4), withF2 0x5a (load "Cvtsd2ss" 8),
   plain 0x5b (load "Cvtdq2ps"), with66 0x5b (load "Cvtps2dq"), withF3 0x5b (load "Cvttps2dq"),
   with66 0xe6 (load "Cvttpd2dq"), withF3 0xe6 (load "Cvtdq2pd" 8), withF2 0xe6 (load "Cvtpd2dq")]

/-- Floating point arithmetic and comparisons. -/
def arithmetic : List Entry :=
  Family.interleaving.flatMap (fun (op, stem) => packed op stem.capitalize (load ·)) ++
  [plain 0x2e (compare "Ucomiss" 4), with66 0x2e (compare "Ucomisd" 8),
   plain 0x2f (compare "Comiss" 4), with66 0x2f (compare "Comisd" 8)] ++
  kinds 0x51 "Sqrt" (load · ·) ++
  [plain 0x52 (load "Rsqrtps"), withF3 0x52 (load "Rsqrtss" 4),
   plain 0x53 (load "Rcpps"), withF3 0x53 (load "Rcpss" 4)] ++
  Family.bitwise.flatMap (fun (op, stem) => packed op stem.capitalize (load ·)) ++
  Family.arithmetic.flatMap (fun (op, stem) => kinds op stem.capitalize (load · ·)) ++
  [with66 0x7c (load "Haddpd"), withF2 0x7c (load "Haddps"),
   with66 0x7d (load "Hsubpd"), withF2 0x7d (load "Hsubps"),
   plain 0xc2 (comparing "ps" (loadConstant "Cmpps")), with66 0xc2 (comparing "pd" (loadConstant "Cmppd")),
   withF3 0xc2 (comparing "ss" (loadConstant "Cmpss" 4)),
   withF2 0xc2 (comparing "sd" (loadConstant "Cmpsd" 8)),
   plain 0xc6 (loadConstant "Shufps"), with66 0xc6 (loadConstant "Shufpd"),
   with66 0xd0 (load "Addsubpd"), withF2 0xd0 (load "Addsubps")]

/-- Integer instructions. -/
def integers : List Entry :=
  (Family.integers ++ Family.integerComparisons ++ Family.shifts).flatMap
    (fun (op, stem, _) => both op stem) ++
  (Family.integerBitwise ++ Family.differences).flatMap (fun (op, stem) => both op stem) ++
  Family.vectorIntegers.map (fun (op, stem, _) => with66 op (load stem.capitalize)) ++
  [plain 0x70 (mmxConstant "Pshufw"), with66 0x70 (loadConstant "Pshufd"),
   withF3 0x70 (loadConstant "Pshufhw"), withF2 0x70 (loadConstant "Pshuflw")] ++
  Family.constantShifts.flatMap (fun (op, digit, stem, _) =>
    [(plain op (Form.named stem.capitalize [.mmxRm, .constant] 1).onRegister).slash digit,
     (with66 op (Form.named stem.capitalize [source 16, .constant] 1).onRegister).slash digit]) ++
  Family.byteShifts.map (fun (op, digit, stem) =>
    (with66 op (Form.named stem.capitalize [source 16, .constant] 1).onRegister).slash digit) ++
  [plain 0x77 (.named "Emms"),
   plain 0xc4 (.named "Pinsrw" [.mmx, .rmAs .general 2, .constant] 1),
   with66 0xc4 (.named "Pinsrw" [xmm, .rmAs .general 2, .constant] 1),
   plain 0xc5 (Form.named "Pextrw" [.reg .general, .mmxRm, .constant] 1).onRegister,
   with66 0xc5 (Form.named "Pextrw" [.reg .general, source 16, .constant] 1).onRegister,
   (with66 0x78 (Form.named "Extrq" [source 16, .constant, .constant] 1).onRegister).slash 0,
   withF2 0x78 (Form.named "Insertq" [xmm, source 16, .constant, .constant] 1).onRegister,
   with66 0x79 (Form.named "Extrq" [xmm, source 16] 1).onRegister,
   withF2 0x79 (Form.named "Insertq" [xmm, source 16] 1).onRegister]

/-- The table behind 0F. -/
def table : List Entry :=
  moves ++ conversions ++ arithmetic ++ integers

/-! ## Behind 0F 38 -/

/-- An instruction that also uses the first vector register, which is written behind its operands. -/
def blend (name : String) : Form :=
  (load name).arranged (.followed (.vector .xmm 0))

/-- Integer and floating point instructions. -/
def integers38 : List Entry :=
  Family.integers38.flatMap (fun (op, stem, _) => both op stem) ++
  Family.horizontal38.flatMap (fun (op, stem) => both op stem) ++
  Family.absolute.flatMap (fun (op, stem, _) => both op stem) ++
  Family.widening.flatMap (fun (op, stem, lanes) =>
    [with66 op (load ("Pmovsx" ++ stem) (lanes.bytes .xmm)),
     with66 (op + 0x10) (load ("Pmovzx" ++ stem) (lanes.bytes .xmm))]) ++
  Family.vectorIntegers38.map (fun (op, stem, _) => with66 op (load stem.capitalize)) ++
  (Family.quadComparisons ++ Family.cipherRounds).map (fun (op, stem) => with66 op (load stem.capitalize)) ++
  [with66 0x10 (blend "Pblendvb"), with66 0x14 (blend "Blendvps"), with66 0x15 (blend "Blendvpd"),
   with66 0x17 (compare "Ptest"), with66 0x2a (load "Movntdqa").onMemory, with66 0x41 (load "Phminposuw"),
   plain 0xc8 (load "Sha1nexte"), plain 0xc9 (load "Sha1msg1"), plain 0xca (load "Sha1msg2"),
   plain 0xcb (blend "Sha256rnds2"), plain 0xcc (load "Sha256msg1"), plain 0xcd (load "Sha256msg2"),
   with66 0xcf (load "Gf2p8mulb"), with66 0xdb (load "Aesimc")]

/-- The instructions with a key locker. -/
def keys38 : List Entry :=
  let wide (name : String) (bytes : Nat) : Form :=
    (Form.named name [.memory bytes] 0 ((List.range 8).map fun n => .named (.vector .xmm n))).onMemory
  let encode (name : String) : Form :=
    (Form.named name [.reg .dword, .rm .dword] 1
      ([0, 1, 2, 4, 5, 6].map fun n => .named (.vector .xmm n))).onRegister
  [(withF3 0xd8 (wide "Aesencwide128kl" 48)).slash 0, (withF3 0xd8 (wide "Aesdecwide128kl" 48)).slash 1,
   (withF3 0xd8 (wide "Aesencwide256kl" 64)).slash 2, (withF3 0xd8 (wide "Aesdecwide256kl" 64)).slash 3,
   withF3 0xdc (load "Aesenc128kl" 48).onMemory, withF3 0xdc (compare "Loadiwkey").onRegister,
   withF3 0xdd (load "Aesdec128kl" 48).onMemory, withF3 0xde (load "Aesenc256kl" 64).onMemory,
   withF3 0xdf (load "Aesdec256kl" 64).onMemory,
   withF3 0xfa (encode "Encodekey128"), withF3 0xfb (encode "Encodekey256")]

/-- The instructions on general registers. -/
def general38 : List Entry :=
  let invalidate (name : String) : Form := (Form.named name [.reg .pointer, .memory 16]).onMemory
  let atomic (name : String) : Form := (Form.named name [.rm .general, .reg .general] 1).onMemory
  let block (name : String) : Form := (Form.named name [.reg .address, .memory 64] 0 [.target 64]).onMemory
  [with66 0x80 (invalidate "Invept"), with66 0x81 (invalidate "Invvpid"), with66 0x82 (invalidate "Invpcid"),
   plain 0xf0 (Form.named "Movbe" [.reg .operand, .rm .operand] 1).onMemory,
   with66 0xf0 (Form.named "Movbe" [.reg .operand, .rm .operand] 1).onMemory,
   plain 0xf1 (Form.named "Movbe" [.rm .operand, .reg .operand] 1).onMemory,
   with66 0xf1 (Form.named "Movbe" [.rm .operand, .reg .operand] 1).onMemory,
   withF2 0xf0 (Form.named "Crc32" [.reg .general, .rm .byte] 1).sized,
   withF2 0xf1 (Form.named "Crc32" [.reg .general, .rm .operand] 1).sized] ++
  byWidth (with66 0xf5) atomic "Wrussd" "Wrussq" ++ byWidth (plain 0xf6) atomic "Wrssd" "Wrssq" ++
  [with66 0xf6 (.named "Adcx" [.reg .general, .rm .general] 1),
   withF3 0xf6 (.named "Adox" [.reg .general, .rm .general] 1),
   with66 0xf8 (block "Movdir64b"), withF3 0xf8 (block "Enqcmds"), withF2 0xf8 (block "Enqcmd"),
   plain 0xf9 (atomic "Movdiri"),
   plain 0xfc (atomic "Aadd"), with66 0xfc (atomic "Aand"), withF3 0xfc (atomic "Axor"),
   withF2 0xfc (atomic "Aor")]

/-- The table behind 0F 38. -/
def table38 : List Entry :=
  integers38 ++ keys38 ++ general38

/-! ## Behind 0F 3A -/

/-- The table behind 0F 3A. -/
def table3A : List Entry :=
  let extract (name : String) (s : Size) (bytes : Nat) : Form :=
    .named name [.rmAs s bytes, xmm, .constant] 1
  let insert (name : String) (s : Size) (bytes : Nat) : Form :=
    .named name [xmm, .rmAs s bytes, .constant] 1
  let counting (name : String) : Form := .named name [xmm, source 16, .constant] 0 [.register .cx .general]
  let masking (name : String) : Form := .named name [xmm, source 16, .constant] 0 [.named (.vector .xmm 0)]
  [with66 0x08 (loadConstant "Roundps"), with66 0x09 (loadConstant "Roundpd"),
   with66 0x0a (loadConstant "Roundss" 4), with66 0x0b (loadConstant "Roundsd" 8),
   with66 0x0c (loadConstant "Blendps"), with66 0x0d (loadConstant "Blendpd"),
   with66 0x0e (loadConstant "Pblendw"), plain 0x0f (mmxConstant "Palignr"),
   with66 0x0f (loadConstant "Palignr"),
   with66 0x14 (extract "Pextrb" .general 1), with66 0x15 (extract "Pextrw" .general 2)] ++
  byWidth (with66 0x16) (fun name => .named name [.rm .general, xmm, .constant] 1) "Pextrd" "Pextrq" ++
  [with66 0x17 (extract "Extractps" .general 4),
   with66 0x20 (insert "Pinsrb" .general 1), with66 0x21 (loadConstant "Insertps" 4)] ++
  byWidth (with66 0x22) (fun name => .named name [xmm, .rm .general, .constant] 1) "Pinsrd" "Pinsrq" ++
  [with66 0x40 (loadConstant "Dpps"), with66 0x41 (loadConstant "Dppd"), with66 0x42 (loadConstant "Mpsadbw"),
   with66 0x44 ((loadConstant "Pclmulqdq").spelled (Family.carryless "pclmul")),
   with66 0x62 (masking "Pcmpistrm"), with66 0x63 (counting "Pcmpistri"),
   plain 0xcc (loadConstant "Sha1rnds4"), with66 0xce (loadConstant "Gf2p8affineqb"),
   with66 0xcf (loadConstant "Gf2p8affineinvqb"), with66 0xdf (loadConstant "Aeskeygenassist"),
   ((withF3 0xf0 (Form.named "Hreset" [.constant]).onRegister).slash 0).ending 0] ++
  byWidth (with66 0x60) masking "Pcmpestrm" "Pcmpestrm64" ++
  byWidth (with66 0x61) counting "Pcmpestri" "Pcmpestri64"

/-! ## Behind 0F 0F -/

/-- The instructions whose opcode stands at the end, with that opcode. -/
def suffixes : List (UInt8 × String) :=
  [(0x0c, "Pi2fw"), (0x0d, "Pi2fd"), (0x1c, "Pf2iw"), (0x1d, "Pf2id"), (0x86, "Pfrcpv"), (0x87, "Pfrsqrtv"),
   (0x8a, "Pfnacc"), (0x8e, "Pfpnacc"), (0x90, "Pfcmpge"), (0x94, "Pfmin"), (0x96, "Pfrcp"),
   (0x97, "Pfrsqrt"),
   (0x9a, "Pfsub"), (0x9e, "Pfadd"), (0xa0, "Pfcmpgt"), (0xa4, "Pfmax"), (0xa6, "Pfrcpit1"),
   (0xa7, "Pfrsqit1"),
   (0xaa, "Pfsubr"), (0xae, "Pfacc"), (0xb0, "Pfcmpeq"), (0xb4, "Pfmul"), (0xb6, "Pfrcpit2"),
   (0xb7, "Pmulhrw"),
   (0xbb, "Pswapd"), (0xbf, "Pavgusb")]

/-- The form of an opcode at the end; its operand byte is complete whether there is one or not. -/
def suffixed (op : UInt8) : Form :=
  match suffixes.lookup op with
  | some name => mmx name
  | none => { mmx "" with reserved := true }

end KernelOffsets.Encoding.MediaMap

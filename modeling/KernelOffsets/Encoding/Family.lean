/-
Families of vector instructions that exist behind several prefixes under the
same opcodes: each row of a family is an opcode and a stem, from which the
tables of the prefixes make their names.
-/
import KernelOffsets.Encoding.Entry

namespace KernelOffsets.Encoding.Family

/-! ## Floating point, in the map behind 0F -/

/-- Arithmetic on two operands. -/
def arithmetic : List (UInt8 × String) :=
  [(0x58, "add"), (0x59, "mul"), (0x5c, "sub"), (0x5d, "min"), (0x5e, "div"), (0x5f, "max")]

/-- Bitwise operations. -/
def bitwise : List (UInt8 × String) :=
  [(0x54, "and"), (0x55, "andn"), (0x56, "or"), (0x57, "xor")]

/-- Interleaving of two operands. -/
def interleaving : List (UInt8 × String) :=
  [(0x14, "unpckl"), (0x15, "unpckh")]

/-- The comparisons, by their constant; the first eight are the oldest. -/
def comparisons : List String :=
  ["eq", "lt", "le", "unord", "neq", "nlt", "nle", "ord",
   "eq_uq", "nge", "ngt", "false", "neq_oq", "ge", "gt", "true",
   "eq_os", "lt_oq", "le_oq", "unord_s", "neq_us", "nlt_uq", "nle_uq", "ord_s",
   "eq_us", "nge_uq", "ngt_uq", "false_os", "neq_os", "ge_oq", "gt_oq", "true_us"]

/-- The mnemonics of comparisons, by their constant. -/
def compared (first : String) (names : List String) (last : String) : List String :=
  names.map fun name => first ++ name ++ last

/-- The mnemonics of carry-less products, by their constant. -/
def carryless (first : String) : List String :=
  [first ++ "lqlqdq", first ++ "hqlqdq"] ++ List.replicate 14 "" ++ [first ++ "lqhqdq", first ++ "hqhqdq"]

/-! ## Integers, in the map behind 0F

The last part of a row is the size of an element that one element in memory
can stand for, or zero.
-/

/-- Instructions on two operands. -/
def integers : List (UInt8 × String × Nat) :=
  [(0x60, "punpcklbw", 0), (0x61, "punpcklwd", 0), (0x62, "punpckldq", 4), (0x63, "packsswb", 0),
   (0x67, "packuswb", 0), (0x68, "punpckhbw", 0), (0x69, "punpckhwd", 0), (0x6a, "punpckhdq", 4),
   (0x6b, "packssdw", 4), (0xd4, "paddq", 8), (0xd5, "pmullw", 0), (0xd8, "psubusb", 0),
   (0xd9, "psubusw", 0), (0xda, "pminub", 0), (0xdc, "paddusb", 0), (0xdd, "paddusw", 0),
   (0xde, "pmaxub", 0), (0xe0, "pavgb", 0), (0xe3, "pavgw", 0), (0xe4, "pmulhuw", 0),
   (0xe5, "pmulhw", 0), (0xe8, "psubsb", 0), (0xe9, "psubsw", 0), (0xea, "pminsw", 0),
   (0xec, "paddsb", 0), (0xed, "paddsw", 0), (0xee, "pmaxsw", 0), (0xf4, "pmuludq", 8),
   (0xf5, "pmaddwd", 0), (0xf8, "psubb", 0), (0xf9, "psubw", 0), (0xfa, "psubd", 4),
   (0xfb, "psubq", 8), (0xfc, "paddb", 0), (0xfd, "paddw", 0), (0xfe, "paddd", 4)]

/-- Instructions on two operands that vectors alone have. -/
def vectorIntegers : List (UInt8 × String × Nat) :=
  [(0x6c, "punpcklqdq", 8), (0x6d, "punpckhqdq", 8)]

/-- Sums of differences, which cannot have a mask. -/
def differences : List (UInt8 × String) :=
  [(0xf6, "psadbw")]

/-- Comparisons. -/
def integerComparisons : List (UInt8 × String × Nat) :=
  [(0x64, "pcmpgtb", 0), (0x65, "pcmpgtw", 0), (0x66, "pcmpgtd", 4),
   (0x74, "pcmpeqb", 0), (0x75, "pcmpeqw", 0), (0x76, "pcmpeqd", 4)]

/-- Bitwise operations. -/
def integerBitwise : List (UInt8 × String) :=
  [(0xdb, "pand"), (0xdf, "pandn"), (0xeb, "por"), (0xef, "pxor")]

/-- Shifts by a count in a register; the last part is the size of the shifted element. -/
def shifts : List (UInt8 × String × Nat) :=
  [(0xd1, "psrlw", 2), (0xd2, "psrld", 4), (0xd3, "psrlq", 8), (0xe1, "psraw", 2), (0xe2, "psrad", 4),
   (0xf1, "psllw", 2), (0xf2, "pslld", 4), (0xf3, "psllq", 8)]

/-- Shifts by a constant: opcode, middle field, stem, size of the shifted element. -/
def constantShifts : List (UInt8 × Fin 8 × String × Nat) :=
  [(0x71, 2, "psrlw", 2), (0x71, 4, "psraw", 2), (0x71, 6, "psllw", 2),
   (0x72, 2, "psrld", 4), (0x72, 4, "psrad", 4), (0x72, 6, "pslld", 4),
   (0x73, 2, "psrlq", 8), (0x73, 6, "psllq", 8)]

/-- Shifts of a whole register by a number of bytes. -/
def byteShifts : List (UInt8 × Fin 8 × String) :=
  [(0x73, 3, "psrldq"), (0x73, 7, "pslldq")]

/-! ## The map behind 0F 38 -/

/-- Instructions on two operands that the masked tables have too. -/
def integers38 : List (UInt8 × String × Nat) :=
  [(0x00, "pshufb", 0), (0x04, "pmaddubsw", 0), (0x0b, "pmulhrsw", 0)]

/-- Instructions on two operands that the masked tables do not have. -/
def horizontal38 : List (UInt8 × String) :=
  [(0x01, "phaddw"), (0x02, "phaddd"), (0x03, "phaddsw"), (0x05, "phsubw"), (0x06, "phsubd"),
   (0x07, "phsubsw"), (0x08, "psignb"), (0x09, "psignw"), (0x0a, "psignd")]

/-- Absolute values. -/
def absolute : List (UInt8 × String × Nat) :=
  [(0x1c, "pabsb", 0), (0x1d, "pabsw", 0), (0x1e, "pabsd", 4)]

/-- Widening moves, with the share of the register that their source fills; the opcodes of the signed ones. -/
def widening : List (UInt8 × String × Lanes) :=
  [(0x20, "bw", .half), (0x21, "bd", .quarter), (0x22, "bq", .eighth), (0x23, "wd", .half),
   (0x24, "wq", .quarter), (0x25, "dq", .half)]

/-- Instructions on two operands that vectors alone have. -/
def vectorIntegers38 : List (UInt8 × String × Nat) :=
  [(0x28, "pmuldq", 8), (0x2b, "packusdw", 4), (0x38, "pminsb", 0), (0x39, "pminsd", 4),
   (0x3a, "pminuw", 0), (0x3b, "pminud", 4), (0x3c, "pmaxsb", 0), (0x3d, "pmaxsd", 4),
   (0x3e, "pmaxuw", 0), (0x3f, "pmaxud", 4), (0x40, "pmulld", 4)]

/-- Comparisons of quad words. -/
def quadComparisons : List (UInt8 × String) :=
  [(0x29, "pcmpeqq"), (0x37, "pcmpgtq")]

/-- Rounds of a cipher. -/
def cipherRounds : List (UInt8 × String) :=
  [(0xdc, "aesenc"), (0xdd, "aesenclast"), (0xde, "aesdec"), (0xdf, "aesdeclast")]

/-- Products with a sum: the low half of the opcode, the stem, whether of single elements. -/
def products : List (UInt8 × String × Bool) :=
  [(0x06, "maddsub", false), (0x07, "msubadd", false), (0x08, "madd", false), (0x09, "madd", true),
   (0x0a, "msub", false), (0x0b, "msub", true), (0x0c, "nmadd", false), (0x0d, "nmadd", true),
   (0x0e, "nmsub", false), (0x0f, "nmsub", true)]

/-- The orders of the operands of a product with a sum: the high half of the opcode, the name. -/
def orders : List (UInt8 × String) :=
  [(0x90, "132"), (0xa0, "213"), (0xb0, "231")]

end KernelOffsets.Encoding.Family

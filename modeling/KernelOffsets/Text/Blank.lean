/-
White space, and cutting text at it. The white space characters are those
with the Unicode property White_Space; core's own test knows four of them.
-/
namespace KernelOffsets.Text

/-- The ranges of the white space characters. -/
def blankRanges : List (Nat × Nat) :=
  [(0x9, 0xd), (0x20, 0x20), (0x85, 0x85), (0xa0, 0xa0), (0x1680, 0x1680), (0x2000, 0x200a),
   (0x2028, 0x2029), (0x202f, 0x202f), (0x205f, 0x205f), (0x3000, 0x3000)]

/-- Whether a character is white space. -/
def isBlank (c : Char) : Bool :=
  blankRanges.any fun (low, high) => low ≤ c.toNat && c.toNat ≤ high

theorem isBlank_of_isWhitespace {c : Char} (h : c.isWhitespace = true) : isBlank c = true := by
  simp only [Char.isWhitespace, Bool.or_eq_true, decide_eq_true_eq] at h
  rcases h with ((h | h) | h) | h <;> subst h <;> decide

/-- The lines of a text: the pieces between line feeds. -/
def lines (cs : List Char) : List (List Char) :=
  match cs with
  | [] => [[]]
  | c :: rest =>
    if c = '\n' then [] :: lines rest
    else match lines rest with
      | line :: more => (c :: line) :: more
      | [] => [[c]]

/-- The longest pieces of a text without white space. -/
def words (cs : List Char) : List (List Char) :=
  match _h : cs.dropWhile isBlank with
  | [] => []
  | c :: rest => (c :: rest.takeWhile (!isBlank ·)) :: words (rest.dropWhile (!isBlank ·))
termination_by cs.length
decreasing_by
  have h1 : (cs.dropWhile isBlank).length ≤ cs.length := (List.dropWhile_suffix _).length_le
  have h2 : (rest.dropWhile (!isBlank ·)).length ≤ rest.length := (List.dropWhile_suffix _).length_le
  simp only [_h, List.length_cons] at h1
  omega

end KernelOffsets.Text

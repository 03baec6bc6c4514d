/-
Writing symbol maps. A `Listing` is a text of lines, some of which list a
symbol, with all the freedom that a writer has: white space around the fields,
a type or none, marks, zeros, letters of either case and backticks in
addresses, blank lines and comments in between, and two kinds of line breaks.
An address is read back whatever stands around it (`Numeral.readAddress_chars`),
then each line on its own (`Line.readLines_chars`). The order of lines does not
matter, because a table is made of its entries in any order
(`insertAll_of_perm`). The main result is `SymbolTable.ofMap_listing`.
-/
import KernelOffsets.Proofs.PrefixLookup
import KernelOffsets.Symbols.Load

namespace KernelOffsets

/-! ## Insertions in any order -/

namespace SymbolTable

variable {name : String} {address : UInt64} {l symbols : List (String × UInt64)} {t u : SymbolTable}

theorem insertAll_append (t : SymbolTable) (symbols more : List (String × UInt64)) :
    t.insertAll (symbols ++ more) = (t.insertAll symbols).insertAll more :=
  List.foldl_append

/-- A new name is added to the entries. -/
theorem perm_put (h : name ∉ l.map Prod.fst) : (put name address l).Perm ((name, address) :: l) := by
  induction l with
  | nil => exact .refl _
  | cons e l ih =>
    rw [List.map_cons, List.mem_cons, not_or] at h
    rw [put]
    split
    · exact .refl _
    · split
      · exact ((ih h.2).cons e).trans (.swap ..)
      · next hge hle => exact absurd (eq_of_not_lt hge hle) h.1

/-- Distinct new names are added to the entries. -/
theorem perm_insertAll (h : ((t.entries ++ symbols).map Prod.fst).Nodup) :
    (t.insertAll symbols).entries.Perm (t.entries ++ symbols) := by
  induction symbols generalizing t with
  | nil =>
    rw [List.append_nil]
    exact .refl _
  | cons e symbols ih =>
    have hmoved : (t.entries ++ e :: symbols).Perm (e :: t.entries ++ symbols) := List.perm_middle
    have hdistinct := (hmoved.map Prod.fst).nodup_iff.1 h
    rw [List.cons_append, List.map_cons, List.nodup_cons, List.map_append, List.mem_append, not_or] at hdistinct
    have hput : (t.insert e.1 e.2).entries.Perm (e :: t.entries) := perm_put hdistinct.1.1
    have hinsert := hput.append_right symbols
    have hentries := hinsert.trans hmoved.symm
    exact (ih ((hentries.map Prod.fst).nodup_iff.2 h)).trans hentries

/-- Tables with the same entries in some order are the same. -/
theorem eq_of_perm (h : t.entries.Perm u.entries) : t = u := by
  have hentries : t.entries = u.entries :=
    h.eq_of_pairwise (fun _ _ _ _ hab hba => absurd hba (String.lt_asymm hab)) t.ascending u.ascending
  cases t
  cases u
  congr

theorem nodup_names (t : SymbolTable) : (t.entries.map Prod.fst).Nodup :=
  List.pairwise_map.2 (t.ascending.imp fun hlt => String.ne_of_lt hlt)

/-- Inserting the entries of a table in any order makes this table. -/
theorem insertAll_of_perm (h : symbols.Perm t.entries) : empty.insertAll symbols = t := by
  have hdistinct : ((empty.entries ++ symbols).map Prod.fst).Nodup := (h.map Prod.fst).nodup_iff.2 t.nodup_names
  exact eq_of_perm ((perm_insertAll hdistinct).trans h)

end SymbolTable

/-! ## White space and fields -/

namespace Text

variable {c : Char} {cs rest line : List Char}

/-- White space within a line. -/
structure Gap where
  chars : List Char
  blank : chars.all fun c => isBlank c && c != '\n'

/-- White space between two fields of a line. -/
structure Separator extends Gap where
  nonempty : chars ≠ []

/-- A field of a line. -/
structure Token where
  chars : List Char
  nonempty : chars ≠ []
  solid : chars.all fun c => !isBlank c

theorem Gap.isBlank_of_mem (g : Gap) (hc : c ∈ g.chars) : isBlank c = true :=
  (Bool.and_eq_true_iff.1 (List.all_eq_true.1 g.blank c hc)).1

theorem Gap.not_mem_feed (g : Gap) : '\n' ∉ g.chars := fun h => absurd (List.all_eq_true.1 g.blank _ h) (by decide)

theorem Token.isBlank_of_mem (w : Token) (hc : c ∈ w.chars) : isBlank c = false := by
  simpa using List.all_eq_true.1 w.solid c hc

theorem Token.not_mem_feed (w : Token) : '\n' ∉ w.chars := fun h => absurd (w.isBlank_of_mem h) (by decide)

/-- White space and then some more. -/
def Gap.append (g g' : Gap) : Gap := ⟨g.chars ++ g'.chars, by rw [List.all_append, g.blank, g'.blank]; rfl⟩

theorem dropWhile_gap_append (g : Gap) (rest : List Char) :
    (g.chars ++ rest).dropWhile isBlank = rest.dropWhile isBlank :=
  List.dropWhile_append_of_pos fun _ => g.isBlank_of_mem

theorem dropWhile_gap (g : Gap) : g.chars.dropWhile isBlank = [] := by
  rw [← List.append_nil g.chars, dropWhile_gap_append, List.dropWhile_nil]

theorem words_of_dropWhile_eq_nil (h : cs.dropWhile isBlank = []) : words cs = [] := by
  rw [words]
  split
  · rfl
  · next heq => exact absurd (h.symm.trans heq) (List.cons_ne_nil _ _).symm

theorem words_of_dropWhile_eq_cons (h : cs.dropWhile isBlank = c :: rest) :
    words cs = (c :: rest.takeWhile (!isBlank ·)) :: words (rest.dropWhile (!isBlank ·)) := by
  rw [words]
  split
  · next heq => exact absurd (h.symm.trans heq) (List.cons_ne_nil _ _)
  · next heq =>
    rw [h] at heq
    cases heq
    rfl

/-- White space before words does not count. -/
theorem words_gap_append (g : Gap) (rest : List Char) : words (g.chars ++ rest) = words rest := by
  have hdrop := dropWhile_gap_append g rest
  cases h : rest.dropWhile isBlank with
  | nil => rw [words_of_dropWhile_eq_nil h, words_of_dropWhile_eq_nil (hdrop.trans h)]
  | cons c rest' => rw [words_of_dropWhile_eq_cons h, words_of_dropWhile_eq_cons (hdrop.trans h)]

theorem words_gap (g : Gap) : words g.chars = [] := words_of_dropWhile_eq_nil (dropWhile_gap g)

/-- A field is read up to white space or the end. -/
theorem words_token_append (w : Token) (hrest : ∀ c ∈ rest.head?, isBlank c = true) :
    words (w.chars ++ rest) = w.chars :: words rest := by
  obtain ⟨c, cs, hchars⟩ := List.exists_cons_of_ne_nil w.nonempty
  have hsolid : ∀ d ∈ c :: cs, (!isBlank d) = true := List.all_eq_true.1 (hchars ▸ w.solid)
  obtain ⟨hc, hcs⟩ := List.forall_mem_cons.1 hsolid
  have hstop : rest.takeWhile (!isBlank ·) = [] ∧ rest.dropWhile (!isBlank ·) = rest := by
    cases rest with
    | nil => exact ⟨rfl, rfl⟩
    | cons d rest => simp [hrest d rfl]
  have hstart : (c :: (cs ++ rest)).dropWhile isBlank = c :: (cs ++ rest) :=
    List.dropWhile_cons_of_neg (by simpa using hc)
  rw [hchars, List.cons_append, words_of_dropWhile_eq_cons hstart, List.takeWhile_append_of_pos hcs,
    List.dropWhile_append_of_pos hcs, hstop.1, hstop.2, List.append_nil]

theorem words_token_gap (w : Token) (g : Gap) : words (w.chars ++ g.chars) = [w.chars] := by
  rw [words_token_append w fun c hc => g.isBlank_of_mem (List.mem_of_mem_head? hc), words_gap]

theorem words_token_separator (w : Token) (s : Separator) (rest : List Char) :
    words (w.chars ++ (s.chars ++ rest)) = w.chars :: words rest := by
  rw [words_token_append w, words_gap_append]
  intro c hc
  rw [List.head?_append_of_ne_nil _ s.nonempty] at hc
  exact s.isBlank_of_mem (List.mem_of_mem_head? hc)

theorem lines_append_feed (h : '\n' ∉ line) (rest : List Char) : lines (line ++ '\n' :: rest) = line :: lines rest := by
  induction line with
  | nil => rfl
  | cons c line ih =>
    rw [List.mem_cons, not_or] at h
    rw [List.cons_append, lines, if_neg (Ne.symm h.1), ih h.2]

theorem lines_of_not_mem (h : '\n' ∉ line) : lines line = [line] := by
  induction line with
  | nil => rfl
  | cons c line ih =>
    rw [List.mem_cons, not_or] at h
    rw [lines, if_neg (Ne.symm h.1), ih h.2]

end Text

/-! ## Addresses -/

namespace SymbolMap

open Text

variable {a b c : Char} {cs : List Char} {n m : Nat}

theorem digit?_eq (c : Char) :
    digit? c =
      if 0x30 ≤ c.toNat ∧ c.toNat ≤ 0x39 then some (c.toNat - 0x30)
      else if 0x61 ≤ c.toNat ∧ c.toNat ≤ 0x66 then some (c.toNat - 0x61 + 10)
      else if 0x41 ≤ c.toNat ∧ c.toNat ≤ 0x46 then some (c.toNat - 0x41 + 10)
      else none := rfl

theorem toNat_toLower (c : Char) :
    c.toLower.toNat = if 0x41 ≤ c.toNat ∧ c.toNat ≤ 0x5a then c.toNat + 0x20 else c.toNat := by
  have hupper : (c.val ≥ 'A'.val ∧ c.val ≤ 'Z'.val) ↔ 0x41 ≤ c.toNat ∧ c.toNat ≤ 0x5a := Iff.rfl
  by_cases h : 0x41 ≤ c.toNat ∧ c.toNat ≤ 0x5a
  · have hlower : c.toLower = _ := dif_pos (hupper.2 h)
    rw [if_pos h, hlower]
    show (c.val + 0x20).toNat = c.val.toNat + 0x20
    have hlt : c.val.toNat + 0x20 < 2 ^ 32 := Nat.lt_of_le_of_lt (Nat.add_le_add_right h.2 0x20) (by decide)
    rw [UInt32.toNat_add]
    exact Nat.mod_eq_of_lt hlt
  · have hlower : c.toLower = c := dif_neg (mt hupper.1 h)
    rw [if_neg h, hlower]

theorem digit?_toLower (c : Char) : digit? c.toLower = digit? c := by
  rw [digit?_eq, digit?_eq, toNat_toLower]
  generalize c.toNat = n
  split_ifs <;> first | omega | exact congrArg some (by omega) | rfl

theorem isBlank_of_isSome_digit? (h : (digit? c).isSome) : isBlank c = false := by
  have hrange : 0x30 ≤ c.toNat ∧ c.toNat ≤ 0x66 := by
    rw [digit?_eq] at h
    by_contra hout
    rw [if_neg (by omega), if_neg (by omega), if_neg (by omega)] at h
    cases h
  simp only [isBlank, blankRanges, List.any_cons, List.any_nil, Bool.or_false, Bool.or_eq_false_iff,
    Bool.and_eq_false_imp, decide_eq_true_eq, decide_eq_false_iff_not]
  omega

theorem digit?_digitChar (h : n < 16) : digit? n.digitChar = some n := by
  have hall : ∀ n < 16, digit? n.digitChar = some n := by decide
  exact hall n h

theorem readDigits_append (n : Nat) (cs ds : List Char) :
    readDigits n (cs ++ ds) = readDigits n cs >>= fun m => readDigits m ds := by
  induction cs generalizing n with
  | nil => rfl
  | cons c cs ih =>
    rw [List.cons_append, readDigits, readDigits]
    cases digit? c with
    | none => rfl
    | some d =>
      by_cases hfits : n * 16 + d < UInt64.size
      · simp only [if_pos hfits, ih]
      · simp only [if_neg hfits]
        rfl

theorem readDigits_map_toLower (n : Nat) (cs : List Char) : readDigits n (cs.map Char.toLower) = readDigits n cs := by
  induction cs generalizing n with
  | nil => rfl
  | cons c cs ih => simp only [List.map_cons, readDigits, digit?_toLower, ih]

theorem isSome_digit?_of_readDigits (h : readDigits n cs = .ok m) : ∀ c ∈ cs, (digit? c).isSome := by
  induction cs generalizing n with
  | nil => exact fun c hc => absurd hc List.not_mem_nil
  | cons c cs ih =>
    rw [readDigits] at h
    cases hd : digit? c with
    | none =>
      rw [hd] at h
      cases h
    | some d =>
      simp only [hd] at h
      split at h
      · exact List.forall_mem_cons.2 ⟨by rw [hd]; rfl, ih h⟩
      · cases h

theorem readDigits_replicate_zero (zeros : Nat) : readDigits 0 (List.replicate zeros '0') = .ok 0 := by
  induction zeros with
  | zero => rfl
  | succ zeros ih =>
    rw [List.replicate_succ, readDigits]
    exact ih

/-- The digits of a number are read as this number. -/
theorem readDigits_toDigits (h : n < UInt64.size) : readDigits 0 (Nat.toDigits 16 n) = .ok n := by
  induction n using Nat.strongRecOn with
  | ind n ih =>
    have hlast {q d : Nat} (hd : d < 16) (hfits : q * 16 + d < UInt64.size) :
        readDigits q [d.digitChar] = .ok (q * 16 + d) := by
      simp only [readDigits, digit?_digitChar hd, if_pos hfits]
    rw [Nat.toDigits_eq_if (by decide)]
    split
    · next hlt =>
      rw [hlast hlt (by omega), Nat.zero_mul, Nat.zero_add]
    · next hge =>
      rw [readDigits_append, ih (n / 16) (by omega) (by omega)]
      show readDigits (n / 16) [(n % 16).digitChar] = .ok n
      rw [hlast (by omega) (by omega), Nat.div_add_mod' n 16]

/-- What may stand before the digits of an address. -/
inductive Mark where
  | none
  | lower
  | upper
  deriving DecidableEq, Repr

def Mark.chars : Mark → List Char
  | none => []
  | lower => ['0', 'x']
  | upper => ['0', 'X']

/-- An address as a field of a line: hexadecimal digits with backticks among them, maybe behind a mark. -/
structure Numeral where
  address : UInt64
  mark : Mark
  zeros : Nat
  digits : List Char
  isNumber : (digits.filter (· != '\x60')).map Char.toLower =
    List.replicate zeros '0' ++ Nat.toDigits 16 address.toNat

namespace Numeral

/-- The text of an address. -/
def chars (a : Numeral) : List Char := a.mark.chars ++ a.digits

theorem readDigits_filter (a : Numeral) : readDigits 0 (a.digits.filter (· != '\x60')) = .ok a.address.toNat := by
  rw [← readDigits_map_toLower, a.isNumber, readDigits_append, readDigits_replicate_zero]
  exact readDigits_toDigits a.address.toNat_lt

/-- Nothing but digits and backticks stands among the digits. -/
theorem not_mem_digits (a : Numeral) (htick : c ≠ '\x60') (hdigit : digit? c = none) : c ∉ a.digits := by
  intro hc
  have hsome := isSome_digit?_of_readDigits a.readDigits_filter c (List.mem_filter.2 ⟨hc, by simpa using htick⟩)
  rw [hdigit] at hsome
  cases hsome

end Numeral

theorem dropMarks_of_not_mem (h : b ∉ cs) : dropMarks a b cs = cs := by
  unfold dropMarks
  split
  · rw [if_neg]
    rintro ⟨-, rfl⟩
    simp at h
  · rfl

theorem readNumber_of_not_mem (h : cs ≠ []) (hplus : '+' ∉ cs) : readNumber cs = readDigits 0 cs := by
  unfold readNumber
  split
  · exact absurd rfl h
  · simp at hplus
  · simp at hplus
  · rfl

namespace Numeral

theorem addressDigits_chars (a : Numeral) : addressDigits a.chars = a.digits.filter (· != '\x60') := by
  have hx : 'x' ∉ a.digits := a.not_mem_digits (by decide) (by decide)
  have hX : 'X' ∉ a.digits := a.not_mem_digits (by decide) (by decide)
  have hmarked : dropMarks '0' 'x' ('0' :: 'X' :: a.digits) = '0' :: 'X' :: a.digits :=
    dropMarks_of_not_mem (by simpa using hx)
  rw [addressDigits, chars]
  cases a.mark with
  | none => rw [Mark.chars, List.nil_append, dropMarks_of_not_mem hx, dropMarks_of_not_mem hX]
  | lower =>
    rw [Mark.chars, List.cons_append, List.cons_append, List.nil_append, dropMarks, if_pos ⟨rfl, rfl⟩,
      dropMarks_of_not_mem hx, dropMarks_of_not_mem hX]
  | upper =>
    rw [Mark.chars, List.cons_append, List.cons_append, List.nil_append, hmarked, dropMarks, if_pos ⟨rfl, rfl⟩,
      dropMarks_of_not_mem hX]

theorem filter_ne_nil (a : Numeral) : a.digits.filter (· != '\x60') ≠ [] := by
  intro h
  have hnumber := a.isNumber
  rw [h, List.map_nil, eq_comm, List.append_eq_nil_iff] at hnumber
  exact Nat.toDigits_ne_nil hnumber.2

/-- Every way to write an address is read as this address. -/
theorem readAddress_chars (a : Numeral) : readAddress a.chars = .ok a.address := by
  have hplus : '+' ∉ a.digits.filter (· != '\x60') := fun h =>
    a.not_mem_digits (by decide) (by decide) (List.mem_of_mem_filter h)
  rw [readAddress, addressDigits_chars, readNumber_of_not_mem a.filter_ne_nil hplus, readDigits_filter]
  exact congrArg _ UInt64.ofNat_toNat

theorem isBlank_of_mem_digits (a : Numeral) (hc : c ∈ a.digits) : isBlank c = false := by
  by_cases htick : c = '\x60'
  · rw [htick]
    decide
  · exact isBlank_of_isSome_digit? (Option.isSome_iff_ne_none.2 fun hdigit => a.not_mem_digits htick hdigit hc)

/-- An address is one field. -/
def token (a : Numeral) : Token where
  chars := a.chars
  nonempty h := a.filter_ne_nil (by rw [(List.append_eq_nil_iff.1 h).2, List.filter_nil])
  solid := by
    have hmark : a.mark.chars.all (fun c => !isBlank c) = true := by cases a.mark <;> decide
    rw [chars, List.all_append, hmark, Bool.true_and, List.all_eq_true]
    intro c hc
    rw [a.isBlank_of_mem_digits hc]
    rfl

theorem not_mem_hash (a : Numeral) : '#' ∉ a.chars := by
  rw [chars, List.mem_append, not_or]
  exact ⟨by cases a.mark <;> decide, a.not_mem_digits (by decide) (by decide)⟩

end Numeral

/-! ## Lines -/

/-- A line that lists a symbol, with a type of the symbol or without. -/
structure Entry where
  before : Gap
  address : Numeral
  kind : Option (Separator × Token)
  separator : Separator
  name : Token
  after : Gap

/-- The text between the address and the name. -/
def Entry.middle (e : Entry) (rest : List Char) : List Char :=
  match e.kind with
  | none => e.separator.chars ++ rest
  | some (s, w) => s.chars ++ (w.chars ++ (e.separator.chars ++ rest))

def Entry.chars (e : Entry) : List Char :=
  e.before.chars ++ (e.address.chars ++ e.middle (e.name.chars ++ e.after.chars))

/-- A line of a listing, without its break. -/
inductive Line where
  | blank (gap : Gap)
  | comment (before : Gap) (text : List Char) (isLine : '\n' ∉ text)
  | entry (e : Entry)

namespace Line

def chars : Line → List Char
  | blank gap => gap.chars
  | comment before text _ => before.chars ++ '#' :: text
  | entry e => e.chars

/-- The symbol that a line lists. -/
def symbol? : Line → Option (String × UInt64)
  | blank _ | comment .. => none
  | entry e => some (String.ofList e.name.chars, e.address.address)

/-- The line with white space behind it. -/
def followedBy (gap : Gap) : Line → Line
  | blank gap' => blank (gap'.append gap)
  | comment before text isLine =>
    comment before (text ++ gap.chars) fun h => (List.mem_append.1 h).elim isLine gap.not_mem_feed
  | entry e => entry { e with after := e.after.append gap }

theorem symbol?_followedBy (gap : Gap) (l : Line) : (l.followedBy gap).symbol? = l.symbol? := by
  cases l <;> rfl

end Line

theorem Entry.words_chars (e : Entry) :
    words e.chars = e.address.chars :: (e.kind.map (·.2.chars)).toList ++ [e.name.chars] := by
  have haddress (s : Separator) (rest : List Char) :
      words (e.address.chars ++ (s.chars ++ rest)) = e.address.chars :: words rest :=
    words_token_separator e.address.token s rest
  rw [chars, words_gap_append, middle]
  cases e.kind with
  | none =>
    rw [haddress, words_token_gap]
    rfl
  | some kind =>
    rw [haddress, words_token_separator, words_token_gap]
    rfl

theorem Entry.readWords_words (e : Entry) :
    readWords (words e.chars) = .ok (String.ofList e.name.chars, e.address.address) := by
  rw [e.words_chars]
  cases e.kind <;> simp [readWords, e.address.readAddress_chars]

theorem Entry.isSkipped_chars (e : Entry) : isSkipped e.chars = false := by
  obtain ⟨c, cs, haddress⟩ := List.exists_cons_of_ne_nil e.address.token.nonempty
  replace haddress : e.address.chars = c :: cs := haddress
  have hmem : c ∈ e.address.chars := haddress ▸ List.mem_cons_self
  have hblank : isBlank c = false := e.address.token.isBlank_of_mem hmem
  have hhash : c ≠ '#' := fun h => e.address.not_mem_hash (h ▸ hmem)
  rw [isSkipped, chars, dropWhile_gap_append, haddress, List.cons_append, List.dropWhile_cons, hblank]
  exact beq_eq_false_iff_ne.2 hhash

namespace Line

theorem isSkipped_chars (l : Line) : isSkipped l.chars = l.symbol?.isNone := by
  cases l with
  | blank gap =>
    rw [isSkipped, chars, dropWhile_gap]
    rfl
  | comment before text isLine =>
    rw [isSkipped, chars, dropWhile_gap_append]
    rfl
  | entry e => exact e.isSkipped_chars

/-- A line adds its symbol, if it lists one. -/
theorem readLines_chars (l : Line) (n : Nat) (t : SymbolTable) (rest : List (List Char)) :
    readLines n t (l.chars :: rest) = readLines (n + 1) (t.insertAll l.symbol?.toList) rest := by
  rw [readLines, isSkipped_chars]
  cases l with
  | blank gap => rfl
  | comment before text isLine => rfl
  | entry e =>
    rw [chars, e.readWords_words]
    rfl

theorem not_mem_feed (l : Line) : '\n' ∉ l.chars := by
  cases l with
  | blank gap => exact gap.not_mem_feed
  | comment before text isLine => simp [chars, before.not_mem_feed, isLine]
  | entry e =>
    have haddress : '\n' ∉ e.address.chars := e.address.token.not_mem_feed
    have hgaps := And.intro e.before.not_mem_feed e.after.not_mem_feed
    have hseparator := e.separator.not_mem_feed
    have hname := e.name.not_mem_feed
    cases hkind : e.kind with
    | none => simp [chars, Entry.chars, Entry.middle, hkind, haddress, hgaps, hseparator, hname]
    | some kind =>
      simp [chars, Entry.chars, Entry.middle, hkind, haddress, hgaps, hseparator, hname, kind.1.not_mem_feed,
        kind.2.not_mem_feed]

theorem chars_followedBy (l : Line) (gap : Gap) : (l.followedBy gap).chars = l.chars ++ gap.chars := by
  cases l with
  | blank gap' => rfl
  | comment before text isLine => simp [followedBy, chars]
  | entry e => cases hkind : e.kind <;> simp [followedBy, chars, Entry.chars, Entry.middle, Gap.append, hkind]

end Line

/-! ## Listings -/

/-- The end of a line. -/
inductive Break where
  | feed
  | returnFeed
  deriving DecidableEq, Repr

/-- What stands before the line feed. -/
def Break.gap : Break → Gap
  | feed => ⟨[], by decide⟩
  | returnFeed => ⟨['\r'], by decide⟩

/-- Lines of a symbol map. The last one has no break, and may be empty. -/
inductive Listing where
  | last (line : Line)
  | more (line : Line) (ending : Break) (rest : Listing)

namespace Listing

def chars : Listing → List Char
  | last line => line.chars
  | more line ending rest => line.chars ++ ending.gap.chars ++ '\n' :: rest.chars

/-- The text of a listing. -/
def text (m : Listing) : String := String.ofList m.chars

/-- The symbols of the lines that list one. -/
def symbols : Listing → List (String × UInt64)
  | last line => line.symbol?.toList
  | more line _ rest => line.symbol?.toList ++ rest.symbols

/-- All symbols of a listing are read, one line after the other. -/
theorem readLines_lines (m : Listing) (n : Nat) (t : SymbolTable) :
    readLines n t (lines m.chars) = .ok (t.insertAll m.symbols) := by
  induction m generalizing n t with
  | last line =>
    rw [chars, lines_of_not_mem line.not_mem_feed, line.readLines_chars]
    rfl
  | more line ending rest ih =>
    -- a carriage return is white space at the end of its line
    rw [chars, ← Line.chars_followedBy, lines_append_feed (Line.not_mem_feed _), Line.readLines_chars, ih,
      Line.symbol?_followedBy, symbols, SymbolTable.insertAll_append]

theorem parse_text (m : Listing) : parse m.text = .ok (SymbolTable.empty.insertAll m.symbols) := by
  rw [parse, text, String.toList_ofList]
  exact m.readLines_lines 1 .empty

end Listing

end SymbolMap

namespace SymbolTable

open SymbolMap

/-- **A symbol map is read as what it lists.** From every listing of the entries of a table, in any order and in any
writing, the table is read. -/
theorem ofMap_listing (t : SymbolTable) (m : Listing) (h : m.symbols.Perm t.entries) :
    (ofMap m.text).result = .ok t := by
  have hparse : parse m.text = .ok t := by rw [m.parse_text, insertAll_of_perm h]
  simp [ofMap, hparse, Except.mapError, Except.bind]

/-- Two symbols, the later one first, between a comment and an empty line and with all that addresses allow. -/
theorem ofMap_listing_mixed :
    let t : SymbolTable := ⟨[("#Sm", 0xff00), ("Sm", 1)], by decide⟩
    let comment : Line := .comment ⟨[' '], by decide⟩ " symbols".toList (by decide)
    let first : Entry :=
      { before := ⟨['\t'], by decide⟩
        address :=
          { address := 1, mark := .none, zeros := 18, digits := "0000000000000000001".toList
            isNumber := by decide }
        kind := none
        separator := ⟨⟨[' ', '\u00a0'], by decide⟩, by decide⟩
        name := ⟨"Sm".toList, by decide, by decide⟩
        after := ⟨[], by decide⟩ }
    let second : Entry :=
      { before := ⟨[], by decide⟩
        address :=
          { address := 0xff00, mark := .upper, zeros := 1, digits := "0fF\x6000".toList
            isNumber := by decide }
        kind := some (⟨⟨[' '], by decide⟩, by decide⟩, ⟨['T'], by decide, by decide⟩)
        separator := ⟨⟨['\t'], by decide⟩, by decide⟩
        name := ⟨"#Sm".toList, by decide, by decide⟩
        after := ⟨[' '], by decide⟩ }
    let m : Listing := .more comment .returnFeed (.more (.entry first) .feed (.more (.entry second) .returnFeed
      (.last (.blank ⟨[], by decide⟩))))
    m.text = " # symbols\r\n\t0000000000000000001 \u00a0Sm\n0X0fF\x6000 T\t#Sm \r\n" ∧ m.symbols.Perm t.entries ∧
    (ofMap m.text).result = .ok t := by
  intro t comment first second m
  have hperm : m.symbols.Perm t.entries := by decide
  exact ⟨rfl, hperm, ofMap_listing t m hperm⟩

end SymbolTable

end KernelOffsets

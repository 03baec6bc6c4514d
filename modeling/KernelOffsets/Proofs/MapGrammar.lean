/-
Which texts are read as symbol maps. Marks are dropped and digits are read as
far as they go (`SymbolMap.exists_dropMarks`, `SymbolMap.readDigits_eq_ok_iff`),
so the addresses that are read are known exactly
(`SymbolMap.exists_readAddress_iff`). They are the documented ones and those
with a plus sign or with more than one mark (`SymbolMap.isDocumented_iff`). The
main result is `SymbolTable.ofMap_grammar`.
-/
import KernelOffsets.Proofs.MapLines

namespace KernelOffsets

namespace SymbolMap

open Text

variable {c : Char} {n m k : Nat} {cs rest digits field line marks sign : List Char} {P : List Char → Prop}

/-! ## Numbers -/

/-- A hexadecimal digit, of either case. -/
def IsHexDigit (c : Char) : Prop :=
  ('0' ≤ c ∧ c ≤ '9') ∨ ('a' ≤ c ∧ c ≤ 'f') ∨ ('A' ≤ c ∧ c ≤ 'F')

theorem isSome_digit?_iff : (digit? c).isSome ↔ IsHexDigit c := by
  rw [digit?, IsHexDigit]
  split_ifs <;> simp_all

/-- The number that digits stand for if they are behind those of another number. -/
def valueBehind (n : Nat) (digits : List Char) : Nat :=
  digits.foldl (fun n c => n * 16 + (digit? c).getD 0) n

theorem le_valueBehind (n : Nat) (cs : List Char) : n ≤ valueBehind n cs := by
  induction cs generalizing n with
  | nil => exact Nat.le_refl n
  | cons c cs ih =>
    have hle := ih (n * 16 + (digit? c).getD 0)
    rw [valueBehind, List.foldl_cons, ← valueBehind]
    omega

/-- Digits are read as their number if this fits into 64 bits. -/
theorem readDigits_eq_ok_iff (hn : n < UInt64.size) :
    readDigits n cs = .ok m ↔ (∀ c ∈ cs, IsHexDigit c) ∧ valueBehind n cs = m ∧ m < UInt64.size := by
  induction cs generalizing n with
  | nil =>
    constructor
    · rintro ⟨⟩
      exact ⟨nofun, rfl, hn⟩
    · rintro ⟨-, rfl, -⟩
      rfl
  | cons c cs ih =>
    rw [readDigits, List.forall_mem_cons, ← isSome_digit?_iff, valueBehind, List.foldl_cons, ← valueBehind]
    cases hdigit : digit? c with
    | none => simp
    | some d =>
      by_cases hfits : n * 16 + d < UInt64.size
      · simp only [if_pos hfits, ih hfits, Option.isSome_some, true_and, Option.getD_some]
      · have hle := le_valueBehind (n * 16 + d) cs
        simp only [if_neg hfits, Option.isSome_some, true_and, Option.getD_some, reduceCtorEq, false_iff, not_and]
        omega

/-- A number is read with a plus sign or without. -/
theorem readNumber_eq_ok_iff :
    readNumber cs = .ok n ↔
      ∃ sign digits, (sign = [] ∨ sign = ['+']) ∧ cs = sign ++ digits ∧ digits ≠ [] ∧ readDigits 0 digits = .ok n := by
  have hplus {rest : List Char} : readDigits 0 ('+' :: rest) ≠ .ok n := nofun
  constructor
  · intro h
    unfold readNumber at h
    split at h
    · cases h
    · cases h
    · next digits hne => exact ⟨['+'], digits, .inr rfl, rfl, hne, h⟩
    · next hne _ _ => exact ⟨[], cs, .inl rfl, rfl, hne, h⟩
  · rintro ⟨sign, digits, rfl | rfl, rfl, hne, h⟩
    · unfold readNumber
      split
      · exact absurd rfl hne
      · exact absurd h hplus
      · exact absurd h hplus
      · exact h
    · obtain ⟨d, rest, rfl⟩ := List.exists_cons_of_ne_nil hne
      exact h

/-! ## Marks -/

/-- A mark, some times. -/
def Mark.repeated (mark : Mark) (count : Nat) : List Char := (List.replicate count mark.chars).flatten

theorem exists_dropMarks (a b : Char) (cs : List Char) :
    ∃ count, cs = (List.replicate count [a, b]).flatten ++ dropMarks a b cs := by
  induction cs using dropMarks.induct a b with
  | case1 x y rest hmark ih =>
    obtain ⟨rfl, rfl⟩ := hmark
    obtain ⟨count, hcount⟩ := ih
    refine ⟨count + 1, ?_⟩
    rw [dropMarks, if_pos ⟨rfl, rfl⟩, List.replicate_succ, List.flatten_cons, List.append_assoc, ← hcount]
    rfl
  | case2 x y rest hmark =>
    rw [dropMarks, if_neg hmark]
    exact ⟨0, rfl⟩
  | case3 rest hshort =>
    rw [dropMarks.eq_2 a b rest hshort]
    exact ⟨0, rfl⟩

theorem dropMarks_append (a b : Char) (count : Nat) (rest : List Char) :
    dropMarks a b ((List.replicate count [a, b]).flatten ++ rest) = dropMarks a b rest := by
  induction count with
  | zero => rfl
  | succ count ih =>
    rw [List.replicate_succ, List.flatten_cons, List.append_assoc, List.cons_append, List.cons_append, List.nil_append,
      dropMarks, if_pos ⟨rfl, rfl⟩, ih]

/-! ## Addresses -/

/-- Behind marks and a sign hexadecimal digits, at least one of them, of a number that fits into 64 bits; backticks may
stand anywhere behind the marks. -/
def IsAddress (marks sign field : List Char) (n : Nat) : Prop :=
  ∃ rest digits, field = marks ++ rest ∧ rest.filter (· != '\x60') = sign ++ digits ∧ digits ≠ [] ∧
    (∀ c ∈ digits, IsHexDigit c) ∧ valueBehind 0 digits = n ∧ n < UInt64.size

/-- An address as it is documented: behind one mark or none. -/
def IsDocumented (field : List Char) : Prop := ∃ (mark : Mark) (n : Nat), IsAddress mark.chars [] field n

/-- An address as it is read: behind any number of lower case marks and then of upper case marks, and with a plus sign
or without. -/
def IsAccepted (field : List Char) : Prop :=
  ∃ lower upper sign n, (sign = [] ∨ sign = ['+']) ∧
    IsAddress (Mark.lower.repeated lower ++ Mark.upper.repeated upper) sign field n

/-- There is no plus sign, and at most one mark. -/
def IsStrict (field : List Char) : Prop :=
  '+' ∉ field ∧ field.countP (fun c => c = 'x' || c = 'X') ≤ 1

instance (field : List Char) : Decidable (IsStrict field) := inferInstanceAs (Decidable (_ ∧ _))

theorem mem_cases_of_filter (hdigits : rest.filter (· != '\x60') = sign ++ digits) (hhex : ∀ c ∈ digits, IsHexDigit c)
    (hc : c ∈ rest) : c = '\x60' ∨ c ∈ sign ∨ IsHexDigit c := by
  by_cases htick : c = '\x60'
  · exact .inl htick
  · have hmem : c ∈ sign ++ digits := hdigits ▸ List.mem_filter.2 ⟨hc, bne_iff_ne.2 htick⟩
    exact .inr ((List.mem_append.1 hmem).imp_right (hhex c))

theorem not_mem_of_filter (hdigits : rest.filter (· != '\x60') = sign ++ digits) (hhex : ∀ c ∈ digits, IsHexDigit c)
    (hsign : c ∉ sign) (hother : c ≠ '\x60' ∧ digit? c = none) : c ∉ rest := by
  intro hc
  rcases mem_cases_of_filter hdigits hhex hc with htick | hmem | hdigit
  · exact hother.1 htick
  · exact hsign hmem
  · rw [← isSome_digit?_iff, hother.2] at hdigit
    cases hdigit

theorem not_mem_sign (hsign : sign = [] ∨ sign = ['+']) (hplus : c ≠ '+') : c ∉ sign := by
  rcases hsign with rfl | rfl
  · exact List.not_mem_nil
  · exact fun hc => hplus (List.mem_singleton.1 hc)

theorem countP_of_filter (hdigits : rest.filter (· != '\x60') = sign ++ digits) (hhex : ∀ c ∈ digits, IsHexDigit c)
    (hsign : sign = [] ∨ sign = ['+']) : rest.countP (fun c => c = 'x' || c = 'X') = 0 := by
  have hlower : 'x' ∉ rest := not_mem_of_filter hdigits hhex (not_mem_sign hsign (by decide)) (by decide)
  have hupper : 'X' ∉ rest := not_mem_of_filter hdigits hhex (not_mem_sign hsign (by decide)) (by decide)
  refine List.countP_eq_zero.2 fun c hc => ?_
  rw [Bool.or_eq_true, decide_eq_true_eq, decide_eq_true_eq]
  rintro (rfl | rfl)
  · exact hlower hc
  · exact hupper hc

theorem mem_repeated {mark : Mark} (h : c ∈ mark.repeated k) : c ∈ mark.chars := by
  obtain ⟨chars, hchars, hc⟩ := List.mem_flatten.1 h
  rwa [List.eq_of_mem_replicate hchars] at hc

theorem readAddress_isOk_iff : (∃ a, readAddress field = .ok a) ↔ ∃ n, readNumber (addressDigits field) = .ok n := by
  rw [readAddress]
  cases readNumber (addressDigits field) <;> simp

/-- **The addresses that are read.** -/
theorem exists_readAddress_iff : (∃ a, readAddress field = .ok a) ↔ IsAccepted field := by
  simp only [readAddress_isOk_iff, readNumber_eq_ok_iff, readDigits_eq_ok_iff (show 0 < UInt64.size by decide)]
  constructor
  · rintro ⟨n, sign, digits, hsign, hdigits, hne, hhex, hvalue, hfits⟩
    obtain ⟨lower, hlower⟩ := exists_dropMarks '0' 'x' field
    obtain ⟨upper, hupper⟩ := exists_dropMarks '0' 'X' (dropMarks '0' 'x' field)
    refine ⟨lower, upper, sign, n, hsign, _, digits, ?_, hdigits, hne, hhex, hvalue, hfits⟩
    rw [List.append_assoc, Mark.repeated, Mark.repeated]
    conv => lhs; rw [hlower, hupper]
    rfl
  · rintro ⟨lower, upper, sign, n, hsign, haddress⟩
    obtain ⟨rest, digits, rfl, hdigits, hne, hhex, hvalue, hfits⟩ := haddress
    refine ⟨n, sign, digits, hsign, ?_, hne, hhex, hvalue, hfits⟩
    have hnot {c : Char} (hplus : c ≠ '+') (hother : c ≠ '\x60' ∧ digit? c = none) : c ∉ rest :=
      not_mem_of_filter hdigits hhex (not_mem_sign hsign hplus) hother
    have hlower : 'x' ∉ Mark.upper.repeated upper ++ rest := fun hmem =>
      (List.mem_append.1 hmem).elim (fun hc => absurd (mem_repeated hc) (by decide)) (hnot (by decide) (by decide))
    rw [← hdigits, addressDigits, List.append_assoc, Mark.repeated, Mark.chars, dropMarks_append,
      dropMarks_of_not_mem hlower, Mark.repeated, Mark.chars, dropMarks_append,
      dropMarks_of_not_mem (hnot (by decide) (by decide))]

theorem countP_repeated (mark : Mark) (hmark : mark ≠ .none) (count : Nat) :
    (mark.repeated count).countP (fun c => c = 'x' || c = 'X') = count := by
  have hone : mark.chars.countP (fun c => c = 'x' || c = 'X') = 1 := by cases mark <;> trivial
  rw [Mark.repeated, List.countP_flatten, List.map_replicate, hone, List.sum_replicate_nat, Nat.mul_one]

theorem exists_repeated (mark : Mark) :
    ∃ lower upper, mark.chars = Mark.lower.repeated lower ++ Mark.upper.repeated upper := by
  cases mark with
  | none => exact ⟨0, 0, rfl⟩
  | lower => exact ⟨1, 0, rfl⟩
  | upper => exact ⟨0, 1, rfl⟩

/-- At most one mark is a mark or none. -/
theorem exists_mark (lower upper : Nat) (h : lower + upper ≤ 1) :
    ∃ mark : Mark, Mark.lower.repeated lower ++ Mark.upper.repeated upper = mark.chars := by
  obtain ⟨rfl, rfl⟩ | ⟨rfl, rfl⟩ | ⟨rfl, rfl⟩ :
      (lower = 0 ∧ upper = 0) ∨ (lower = 1 ∧ upper = 0) ∨ (lower = 0 ∧ upper = 1) := by omega
  · exact ⟨.none, rfl⟩
  · exact ⟨.lower, rfl⟩
  · exact ⟨.upper, rfl⟩

/-- **The documented addresses** are those that are read and have no plus sign and no second mark. -/
theorem isDocumented_iff : IsDocumented field ↔ IsAccepted field ∧ IsStrict field := by
  constructor
  · rintro ⟨mark, n, rest, digits, rfl, hdigits, hne, hhex, hvalue, hfits⟩
    obtain ⟨lower, upper, hmark⟩ := exists_repeated mark
    refine ⟨⟨lower, upper, [], n, .inl rfl, rest, digits, by rw [hmark], hdigits, hne, hhex, hvalue, hfits⟩, ?_, ?_⟩
    · rw [List.mem_append, not_or]
      exact ⟨by cases mark <;> decide, not_mem_of_filter hdigits hhex List.not_mem_nil (by decide)⟩
    · rw [List.countP_append, countP_of_filter hdigits hhex (.inl rfl)]
      cases mark <;> decide
  · rintro ⟨⟨lower, upper, sign, n, hsign, rest, digits, rfl, hdigits, hne, hhex, hvalue, hfits⟩, hplus, hmarks⟩
    rw [List.countP_append, List.countP_append, countP_repeated _ (by decide), countP_repeated _ (by decide),
      countP_of_filter hdigits hhex hsign] at hmarks
    obtain ⟨mark, hmark⟩ := exists_mark lower upper hmarks
    obtain rfl : sign = [] := by
      refine hsign.resolve_right fun heq => hplus (List.mem_append_right _ ?_)
      have hmem : '+' ∈ rest.filter (· != '\x60') := by simp [hdigits, heq]
      exact List.mem_of_mem_filter hmem
    exact ⟨mark, n, rest, digits, by rw [hmark], hdigits, hne, hhex, hvalue, hfits⟩

/-! ## Lines -/

/-- A line of a map: white space, a comment, or two or three fields with an address of some form before the others. -/
inductive IsLine (P : List Char → Prop) : List Char → Prop where
  | blank (gap : Gap) : IsLine P gap.chars
  | comment (before : Gap) (text : List Char) : IsLine P (before.chars ++ '#' :: text)
  | pair (before : Gap) (address : Token) (form : P address.chars) (separator : Separator) (name : Token)
    (after : Gap) :
    IsLine P (before.chars ++ (address.chars ++ (separator.chars ++ (name.chars ++ after.chars))))
  | triple (before : Gap) (address : Token) (form : P address.chars) (separator : Separator) (kind : Token)
    (separator' : Separator) (name : Token) (after : Gap) :
    IsLine P (before.chars ++ (address.chars ++ (separator.chars ++ (kind.chars ++ (separator'.chars ++
      (name.chars ++ after.chars))))))

/-- A line that is skipped is white space or a comment. -/
theorem isLine_of_isSkipped (hfeed : '\n' ∉ line) (h : isSkipped line = true) : IsLine P line := by
  obtain ⟨g, hline⟩ := exists_gap_append hfeed
  rw [isSkipped] at h
  cases hdrop : line.dropWhile isBlank with
  | nil =>
    rw [hline, hdrop, List.append_nil]
    exact .blank g
  | cons c rest =>
    rw [hdrop] at h
    obtain rfl : c = '#' := by simpa using h
    rw [hline, hdrop]
    exact .comment g rest

/-- A word behind white space. -/
theorem exists_separator_of_words {cs w : List Char} {ws : List (List Char)} (hfeed : '\n' ∉ cs)
    (hstop : ∀ c ∈ cs.head?, isBlank c = true) (h : words cs = w :: ws) :
    ∃ (s : Separator) (t : Token) (rest : List Char), cs = s.chars ++ (t.chars ++ rest) ∧ t.chars = w ∧
      (∀ c ∈ rest.head?, isBlank c = true) ∧ words rest = ws := by
  obtain ⟨g, t, rest, rfl, ht, hrest, hws⟩ := exists_token_of_words hfeed h
  refine ⟨⟨g, fun hempty => ?_⟩, t, rest, rfl, ht, hrest, hws⟩
  obtain ⟨c, chars, hchars⟩ := List.exists_cons_of_ne_nil t.nonempty
  have hblank := hstop c (by rw [hempty, hchars]; rfl)
  have hsolid := t.isBlank_of_mem (c := c) (by rw [hchars]; exact List.mem_cons_self)
  rw [hblank] at hsolid
  cases hsolid

/-- A line of two or three fields. -/
theorem isLine_of_words (hfeed : '\n' ∉ line) {address : List Char} {others : List (List Char)}
    (hwords : words line = address :: others) (hcount : others.length = 1 ∨ others.length = 2) (form : P address) :
    IsLine P line := by
  obtain ⟨before, a, rest, rfl, rfl, hstop, hothers⟩ := exists_token_of_words hfeed hwords
  have hfeed' : '\n' ∉ rest := fun h => hfeed (List.mem_append_right _ (List.mem_append_right _ h))
  rcases hcount with hcount | hcount
  · obtain ⟨name, rfl⟩ := List.length_eq_one_iff.1 hcount
    obtain ⟨s, n, rest, rfl, rfl, -, hnone⟩ := exists_separator_of_words hfeed' hstop hothers
    have hbehind : '\n' ∉ rest := fun h => hfeed' (List.mem_append_right _ (List.mem_append_right _ h))
    obtain ⟨after, rfl⟩ := exists_gap_of_words hbehind hnone
    exact .pair before a form s n after
  · obtain ⟨kind, name, rfl⟩ := List.length_eq_two.1 hcount
    obtain ⟨s, k, rest, rfl, rfl, hstop', hname⟩ := exists_separator_of_words hfeed' hstop hothers
    have hbehind : '\n' ∉ rest := fun h => hfeed' (List.mem_append_right _ (List.mem_append_right _ h))
    obtain ⟨s', n, rest, rfl, rfl, -, hnone⟩ := exists_separator_of_words hbehind hstop' hname
    have hlast : '\n' ∉ rest := fun h => hbehind (List.mem_append_right _ (List.mem_append_right _ h))
    obtain ⟨after, rfl⟩ := exists_gap_of_words hlast hnone
    exact .triple before a form s k s' n after

theorem isSkipped_token (before : Gap) (address : Token) (rest : List Char) (hhash : '#' ∉ address.chars) :
    isSkipped (before.chars ++ (address.chars ++ rest)) = false := by
  obtain ⟨c, chars, hchars⟩ := List.exists_cons_of_ne_nil address.nonempty
  have hmem : c ∈ address.chars := hchars ▸ List.mem_cons_self
  rw [isSkipped, dropWhile_gap_append, hchars, List.cons_append, List.dropWhile_cons, address.isBlank_of_mem hmem]
  exact beq_eq_false_iff_ne.2 fun heq => hhash (heq ▸ hmem)

/-- **The lines of a map** are those that are skipped, and those of two or three fields with an address before the
others. -/
theorem isLine_iff (hfeed : '\n' ∉ line) (hhash : ∀ address, P address → '#' ∉ address) :
    IsLine P line ↔ isSkipped line = true ∨ isSkipped line = false ∧ ∃ address others, words line = address :: others ∧
      (others.length = 1 ∨ others.length = 2) ∧ P address := by
  constructor
  · intro h
    cases h with
    | blank gap =>
      left
      rw [isSkipped, dropWhile_gap]
    | comment before text =>
      left
      rw [isSkipped, dropWhile_gap_append]
      rfl
    | pair before address form separator name after =>
      right
      refine ⟨isSkipped_token _ _ _ (hhash _ form), address.chars, [name.chars], ?_, .inl rfl, form⟩
      rw [words_gap_append, words_token_separator, words_token_gap]
    | triple before address form separator kind separator' name after =>
      right
      refine ⟨isSkipped_token _ _ _ (hhash _ form), address.chars, [kind.chars, name.chars], ?_, .inr rfl, form⟩
      rw [words_gap_append, words_token_separator, words_token_separator, words_token_gap]
  · rintro (hskipped | ⟨-, address, others, hwords, hcount, form⟩)
    · exact isLine_of_isSkipped hfeed hskipped
    · exact isLine_of_words hfeed hwords hcount form

theorem not_mem_hash_of_isAccepted (h : IsAccepted field) : '#' ∉ field := by
  obtain ⟨lower, upper, sign, n, hsign, rest, digits, rfl, hdigits, -, hhex, -, -⟩ := h
  have hrest : '#' ∉ rest := not_mem_of_filter hdigits hhex (not_mem_sign hsign (by decide)) (by decide)
  rw [List.mem_append, List.mem_append, not_or, not_or]
  exact ⟨⟨fun h => absurd (mem_repeated h) (by decide), fun h => absurd (mem_repeated h) (by decide)⟩, hrest⟩

theorem exists_readWords_iff {fields : List (List Char)} :
    (∃ symbol, readWords fields = .ok symbol) ↔ ∃ address others, fields = address :: others ∧
      (others.length = 1 ∨ others.length = 2) ∧ IsAccepted address := by
  constructor
  · rintro ⟨symbol, h⟩
    have haccepted {address name : List Char}
        (h : (do return (String.ofList name, ← readAddress address)) = Except.ok symbol) : IsAccepted address := by
      cases ha : readAddress address with
      | error fault =>
        rw [ha] at h
        cases h
      | ok a => exact exists_readAddress_iff.1 ⟨a, ha⟩
    unfold readWords at h
    split at h
    · next address name => exact ⟨address, [name], rfl, .inl rfl, haccepted h⟩
    · next address kind name => exact ⟨address, [kind, name], rfl, .inr rfl, haccepted h⟩
    · cases h
  · rintro ⟨address, others, rfl, hcount, form⟩
    obtain ⟨a, ha⟩ := exists_readAddress_iff.2 form
    rcases hcount with hcount | hcount
    · obtain ⟨name, rfl⟩ := List.length_eq_one_iff.1 hcount
      exact ⟨(String.ofList name, a), by rw [readWords, ha]; rfl⟩
    · obtain ⟨kind, name, rfl⟩ := List.length_eq_two.1 hcount
      exact ⟨(String.ofList name, a), by rw [readWords, ha]; rfl⟩

theorem exists_readLine_iff (hfeed : '\n' ∉ line) : (∃ symbol, readLine line = .ok symbol) ↔ IsLine IsAccepted line := by
  rw [isLine_iff hfeed fun _ => not_mem_hash_of_isAccepted, ← exists_readWords_iff, readLine]
  cases isSkipped line with
  | true => simp
  | false => cases readWords (words line) <;> simp [Except.map]

/-- The address of a line, if it has one, is strict. -/
def HasStrictAddress (line : List Char) : Prop :=
  isSkipped line = false → ∀ address ∈ (words line).head?, IsStrict address

/-- **The documented lines** are those that are read and have a strict address. -/
theorem isLine_isDocumented_iff (hfeed : '\n' ∉ line) :
    IsLine IsDocumented line ↔ IsLine IsAccepted line ∧ HasStrictAddress line := by
  have hhash {address : List Char} (h : IsDocumented address) := not_mem_hash_of_isAccepted (isDocumented_iff.1 h).1
  rw [isLine_iff hfeed fun _ => hhash, isLine_iff hfeed fun _ => not_mem_hash_of_isAccepted, HasStrictAddress]
  cases hskipped : isSkipped line with
  | true => simp
  | false =>
    simp only [reduceCtorEq, true_and, false_or, forall_const]
    constructor
    · rintro ⟨address, others, hwords, hcount, form⟩
      obtain ⟨haccepted, hstrict⟩ := isDocumented_iff.1 form
      refine ⟨⟨address, others, hwords, hcount, haccepted⟩, fun first hfirst => ?_⟩
      rw [hwords] at hfirst
      exact Option.some.inj hfirst ▸ hstrict
    · rintro ⟨⟨address, others, hwords, hcount, haccepted⟩, hstrict⟩
      exact ⟨address, others, hwords, hcount, isDocumented_iff.2 ⟨haccepted, hstrict address (by rw [hwords]; rfl)⟩⟩

end SymbolMap

namespace SymbolTable

open SymbolMap Text

theorem exists_ofMap_iff_isLine (text : String) :
    (∃ t, (ofMap text).result = .ok t) ↔ ∀ line ∈ brokenLines text.toList, IsLine IsAccepted line := by
  simp only [result_ofMap_eq_ok_iff, parse_eq_readLines, exists_readLines_iff]
  exact forall₂_congr fun line hline => exists_readLine_iff (not_mem_feed_of_mem_brokenLines hline)

/--
**The texts that are read as symbol maps** are those whose lines are blank,
comments, or an address with a name and maybe a type. They are of the
documented form exactly if besides no address has a plus sign or a second mark.
-/
theorem ofMap_grammar (text : String) :
    ((∃ t, (ofMap text).result = .ok t) ↔ ∀ line ∈ brokenLines text.toList, IsLine IsAccepted line) ∧
    ((∀ line ∈ brokenLines text.toList, IsLine IsDocumented line) ↔
      (∃ t, (ofMap text).result = .ok t) ∧ ∀ line ∈ brokenLines text.toList, HasStrictAddress line) := by
  refine ⟨exists_ofMap_iff_isLine text, ?_⟩
  rw [exists_ofMap_iff_isLine, ← forall₂_and]
  exact forall₂_congr fun line hline => isLine_isDocumented_iff (not_mem_feed_of_mem_brokenLines hline)

/-- A second mark and a plus sign are read, but they are not of the documented form. -/
theorem not_documented_marked_signed :
    (ofMap "0x0x10 Sm").result = .ok ⟨[("Sm", 0x10)], by decide⟩ ∧
    ¬ (∀ line ∈ brokenLines "0x0x10 Sm".toList, IsLine IsDocumented line) ∧
    (ofMap "+10 Sm").result = .ok ⟨[("Sm", 0x10)], by decide⟩ ∧
    ¬ ∀ line ∈ brokenLines "+10 Sm".toList, IsLine IsDocumented line := by
  let separator : Separator := ⟨⟨[' '], by decide⟩, by decide⟩
  let name : Token := ⟨"Sm".toList, by decide, by decide⟩
  let lineOf (address : Token) : List Char := address.chars ++ (separator.chars ++ name.chars)
  have hwords (address : Token) : words (lineOf address) = [address.chars, name.chars] := by
    rw [words_token_separator]
    exact congrArg _ (words_token_gap name ⟨[], by decide⟩)
  have hskipped (address : Token) (hhash : '#' ∉ address.chars) : isSkipped (lineOf address) = false :=
    isSkipped_token ⟨[], by decide⟩ address _ hhash
  have hread (address : Token) (hhash : '#' ∉ address.chars) (haddress : readAddress address.chars = .ok 0x10) :
      readLines 1 .empty [lineOf address] = .ok ⟨[("Sm", 0x10)], by decide⟩ := by
    rw [readLines_cons, readLine, hskipped address hhash, hwords, readWords, haddress]
    rfl
  have hnot (address : Token) (hhash : '#' ∉ address.chars) (hloose : ¬ IsStrict address.chars) :
      ¬ ∀ line ∈ [lineOf address], IsLine IsDocumented line := by
    intro hlines
    have hfeed : '\n' ∉ lineOf address := by
      simp [lineOf, address.not_mem_feed, separator.not_mem_feed, name.not_mem_feed]
    have hstrict := ((isLine_isDocumented_iff hfeed).1 (hlines _ List.mem_cons_self)).2 (hskipped address hhash)
    rw [hwords] at hstrict
    exact hloose (hstrict _ rfl)
  let marked : Token := ⟨"0x0x10".toList, by decide, by decide⟩
  let signed : Token := ⟨"+10".toList, by decide, by decide⟩
  exact ⟨result_ofMap_eq_ok_iff.2 (hread marked (by decide) (by decide)), hnot marked (by decide) (by decide),
    result_ofMap_eq_ok_iff.2 (hread signed (by decide) (by decide)), hnot signed (by decide) (by decide)⟩

end SymbolTable

end KernelOffsets

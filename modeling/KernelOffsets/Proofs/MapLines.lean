/-
Reading symbol maps line by line. What a line lists does not depend on the
lines around it (`SymbolMap.readLine`), white space at its end does not count
(`SymbolMap.readLine_withoutReturn`), and what it lists is put over what the
lines before it have listed (`SymbolMap.readLines_overriddenBy`). So a text is read as
its parts are, the later part over the earlier one
(`SymbolTable.ofMap_append`).
-/
import KernelOffsets.Proofs.SymbolListing
import Mathlib.Data.List.Nodup
import Mathlib.Data.List.TakeWhile

namespace KernelOffsets

/-! ## Tables over tables -/

namespace SymbolTable

variable {t u : SymbolTable}

/-- Tables with the same addresses under the same names are the same. -/
theorem eq_of_find? (h : ∀ k, t.find? k = u.find? k) : t = u := by
  have hnodup (t : SymbolTable) : t.entries.Nodup := List.Nodup.of_map _ t.nodup_names
  refine eq_of_perm ((List.perm_ext_iff_of_nodup (hnodup t) (hnodup u)).2 fun ⟨k, a⟩ => ?_)
  rw [← find?_eq_some_iff, ← find?_eq_some_iff, h]

/-- The symbols of two tables; under a name of both, the address of the second one. -/
def overriddenBy (t u : SymbolTable) : SymbolTable := t.insertAll u.entries

theorem find?_overriddenBy (t u : SymbolTable) (k : String) :
    (t.overriddenBy u).find? k = (u.find? k).or (t.find? k) := by
  have hu : u.find? k = u.entries.reverse.lookup k := by
    conv => lhs; rw [← insertAll_of_perm (.refl u.entries)]
    rw [find?_insertAll, find?_empty, Option.or_none]
  rw [overriddenBy, find?_insertAll, hu]

theorem overriddenBy_insertAll (t u : SymbolTable) (symbols : List (String × UInt64)) :
    (t.overriddenBy u).insertAll symbols = t.overriddenBy (u.insertAll symbols) := by
  refine eq_of_find? fun k => ?_
  rw [find?_insertAll, find?_overriddenBy, find?_overriddenBy, find?_insertAll, Option.or_assoc]

end SymbolTable

/-! ## The lines of a text -/

namespace Text

variable {c : Char} {cs line w : List Char} {l ws : List (List Char)}

theorem lines_ne_nil (cs : List Char) : lines cs ≠ [] := by
  cases cs with
  | nil => exact List.cons_ne_nil _ _
  | cons c cs =>
    rw [lines]
    split
    · exact List.cons_ne_nil _ _
    · split <;> exact List.cons_ne_nil _ _

theorem lines_cons_of_ne (cs : List Char) (h : c ≠ '\n') :
    ∃ line more, lines cs = line :: more ∧ lines (c :: cs) = (c :: line) :: more := by
  obtain ⟨line, more, hlines⟩ := List.exists_cons_of_ne_nil (lines_ne_nil cs)
  exact ⟨line, more, hlines, by rw [lines, if_neg h, hlines]⟩

/-- A line feed ends a line, whatever stands behind it. -/
theorem lines_append (cs rest : List Char) : lines (cs ++ '\n' :: rest) = lines cs ++ lines rest := by
  induction cs with
  | nil => rfl
  | cons c cs ih =>
    by_cases hc : c = '\n'
    · subst hc
      rw [List.cons_append, lines, if_pos rfl, ih, lines, if_pos rfl, List.cons_append]
    · obtain ⟨line, more, hlines, hcons⟩ := lines_cons_of_ne cs hc
      rw [hcons, List.cons_append, lines, if_neg hc, ih, hlines]
      rfl

theorem length_lines (cs : List Char) : (lines cs).length = cs.count '\n' + 1 := by
  induction cs with
  | nil => rfl
  | cons c cs ih =>
    by_cases hc : c = '\n'
    · subst hc
      rw [lines, if_pos rfl, List.length_cons, ih, List.count_cons_self]
    · obtain ⟨line, more, hlines, hcons⟩ := lines_cons_of_ne cs hc
      rw [hcons, List.count_cons_of_ne hc, ← ih, hlines]
      rfl

theorem not_mem_feed_of_mem_lines (h : line ∈ lines cs) : '\n' ∉ line := by
  induction cs generalizing line with
  | nil =>
    obtain rfl := List.mem_singleton.1 h
    exact List.not_mem_nil
  | cons c cs ih =>
    by_cases hc : c = '\n'
    · rw [lines, if_pos hc] at h
      rcases List.mem_cons.1 h with rfl | h
      · exact List.not_mem_nil
      · exact ih h
    · obtain ⟨first, more, hlines, hcons⟩ := lines_cons_of_ne cs hc
      rw [hcons] at h
      rcases List.mem_cons.1 h with rfl | h
      · exact List.not_mem_cons_of_ne_of_not_mem (Ne.symm hc) (ih (hlines ▸ List.mem_cons_self))
      · exact ih (hlines ▸ List.mem_cons_of_mem _ h)

/-- A line without the carriage return of its break. -/
def withoutReturn (line : List Char) : List Char :=
  if line.getLast? = some '\r' then line.dropLast else line

/-- The pieces of a text as lines without their breaks. Behind the last break stands no line if nothing stands there. -/
def endLines : List (List Char) → List (List Char)
  | [] => []
  | [last] => if last = [] then [] else [last]
  | line :: more => withoutReturn line :: endLines more

theorem endLines_cons (line : List Char) (h : l ≠ []) : endLines (line :: l) = withoutReturn line :: endLines l := by
  cases l with
  | nil => exact absurd rfl h
  | cons next more => rfl

/-- The lines of a text, each ended by a line feed, with a carriage return before it or without, or by the end. -/
def brokenLines (cs : List Char) : List (List Char) := endLines (lines cs)

theorem exists_withoutReturn (line : List Char) : ∃ g : Gap, line = withoutReturn line ++ g.chars := by
  unfold withoutReturn
  split
  · next hlast => exact ⟨⟨['\r'], by decide⟩, (List.dropLast_append_getLast? _ hlast).symm⟩
  · exact ⟨⟨[], by decide⟩, (List.append_nil _).symm⟩

theorem not_mem_feed_of_mem_endLines (hl : ∀ line ∈ l, '\n' ∉ line) (h : line ∈ endLines l) : '\n' ∉ line := by
  induction l using endLines.induct with
  | case1 => cases h
  | case2 => cases h
  | case3 last hlast =>
    rw [endLines, if_neg hlast] at h
    exact hl line h
  | case4 first more hmore ih =>
    rw [endLines_cons first hmore] at h
    rcases List.mem_cons.1 h with rfl | h
    · obtain ⟨g, hfirst⟩ := exists_withoutReturn first
      exact fun hfeed => hl first List.mem_cons_self (hfirst ▸ List.mem_append_left _ hfeed)
    · exact ih (fun line hline => hl line (List.mem_cons_of_mem _ hline)) h

/-- The white space that a line starts with. -/
theorem exists_gap_append (hfeed : '\n' ∉ cs) : ∃ g : Gap, cs = g.chars ++ cs.dropWhile isBlank := by
  have hgap : (cs.takeWhile isBlank).all (fun c => isBlank c && c != '\n') = true := by
    refine List.all_eq_true.2 fun c hc => ?_
    rw [List.mem_takeWhile_imp hc, Bool.true_and, bne_iff_ne]
    exact fun heq => hfeed (heq ▸ (List.takeWhile_prefix _).subset hc)
  exact ⟨⟨_, hgap⟩, List.takeWhile_append_dropWhile.symm⟩

/-- A line without words is white space. -/
theorem exists_gap_of_words (hfeed : '\n' ∉ cs) (h : words cs = []) : ∃ g : Gap, g.chars = cs := by
  obtain ⟨g, hcs⟩ := exists_gap_append hfeed
  cases hdrop : cs.dropWhile isBlank with
  | nil =>
    rw [hdrop, List.append_nil] at hcs
    exact ⟨g, hcs.symm⟩
  | cons c rest =>
    rw [words_of_dropWhile_eq_cons hdrop] at h
    cases h

/-- The first word of a line stands behind white space, and reaches up to white space or the end. -/
theorem exists_token_of_words (hfeed : '\n' ∉ cs) (h : words cs = w :: ws) :
    ∃ (g : Gap) (t : Token) (rest : List Char), cs = g.chars ++ (t.chars ++ rest) ∧ t.chars = w ∧
      (∀ c ∈ rest.head?, isBlank c = true) ∧ words rest = ws := by
  obtain ⟨g, hcs⟩ := exists_gap_append hfeed
  cases hdrop : cs.dropWhile isBlank with
  | nil =>
    rw [words_of_dropWhile_eq_nil hdrop] at h
    cases h
  | cons c rest =>
    rw [words_of_dropWhile_eq_cons hdrop] at h
    obtain ⟨rfl, rfl⟩ := List.cons.inj h
    have hfirst : isBlank c = false := by
      have hnot := List.head?_dropWhile_not isBlank cs
      simpa [hdrop] using hnot
    have hsolid : (c :: rest.takeWhile (!isBlank ·)).all (fun c => !isBlank c) = true := by
      rw [List.all_cons, hfirst, List.all_takeWhile]
      rfl
    refine ⟨g, ⟨_, List.cons_ne_nil _ _, hsolid⟩, rest.dropWhile (!isBlank ·), ?_, rfl, ?_, rfl⟩
    · rw [List.cons_append, List.takeWhile_append_dropWhile, ← hdrop]
      exact hcs
    · intro d hd
      have hnot := List.head?_dropWhile_not (!isBlank ·) rest
      rw [Option.mem_def.1 hd] at hnot
      simpa using hnot

/-- White space behind words does not count. -/
theorem words_append_gap (hfeed : '\n' ∉ cs) (g : Gap) : words (cs ++ g.chars) = words cs := by
  generalize hwords : words cs = ws
  induction ws generalizing cs with
  | nil =>
    obtain ⟨g', rfl⟩ := exists_gap_of_words hfeed hwords
    rw [words_gap_append, words_gap]
  | cons w ws ih =>
    obtain ⟨g', t, rest, rfl, rfl, hstop, hrest⟩ := exists_token_of_words hfeed hwords
    have hfeed' : '\n' ∉ rest := fun h => hfeed (List.mem_append_right _ (List.mem_append_right _ h))
    have hstop' : ∀ c ∈ (rest ++ g.chars).head?, isBlank c = true := by
      cases rest with
      | nil => exact fun c hc => g.isBlank_of_mem (List.mem_of_mem_head? hc)
      | cons d rest => exact hstop
    rw [List.append_assoc, List.append_assoc, words_gap_append, words_token_append t hstop', ih hfeed' hrest]

end Text

/-! ## What a line lists -/

/-- The fault, with some more lines before its line. -/
def MapFault.behind (f : MapFault) (n : Nat) : MapFault := { f with line := n + f.line }

namespace SymbolMap

open Text

variable {t u : SymbolTable} {n : Nat} {line : List Char} {l : List (List Char)}

/-- What a line lists: a symbol, or none if it is skipped. -/
def readLine (line : List Char) : Except LineFault (Option (String × UInt64)) :=
  if isSkipped line then .ok none else (readWords (words line)).map some

theorem readLines_cons (n : Nat) (t : SymbolTable) (line : List Char) (l : List (List Char)) :
    readLines n t (line :: l) = match readLine line with
      | .ok symbol => readLines (n + 1) (t.insertAll symbol.toList) l
      | .error fault => .error ⟨n, fault⟩ := by
  rw [readLines, readLine]
  split
  · rfl
  · cases readWords (words line) <;> rfl

theorem isSkipped_append_gap (line : List Char) (g : Gap) : isSkipped (line ++ g.chars) = isSkipped line := by
  rw [isSkipped, isSkipped, List.dropWhile_append]
  cases line.dropWhile isBlank with
  | nil =>
    rw [List.isEmpty_nil, if_pos rfl, dropWhile_gap]
  | cons c rest => rfl

/-- A carriage return at the end of a line does not count. -/
theorem readLine_withoutReturn (h : '\n' ∉ line) : readLine (withoutReturn line) = readLine line := by
  obtain ⟨g, hline⟩ := exists_withoutReturn line
  have hfeed : '\n' ∉ withoutReturn line := fun hmem => h (hline ▸ List.mem_append_left _ hmem)
  conv => rhs; rw [hline]
  rw [readLine, readLine, isSkipped_append_gap, words_append_gap hfeed]

theorem readLines_endLines (h : ∀ line ∈ l, '\n' ∉ line) (n : Nat) (t : SymbolTable) :
    readLines n t (endLines l) = readLines n t l := by
  induction l using endLines.induct generalizing n t with
  | case1 => rfl
  | case2 => rfl
  | case3 last hlast => rw [endLines, if_neg hlast]
  | case4 line more hmore ih =>
    rw [endLines_cons line hmore, readLines_cons, readLines_cons, readLine_withoutReturn (h line List.mem_cons_self)]
    simp only [ih fun line hline => h line (List.mem_cons_of_mem _ hline)]

/-- Reading goes by the lines of a text with their breaks. -/
theorem parse_eq_readLines (text : String) : parse text = readLines 1 .empty (brokenLines text.toList) :=
  (readLines_endLines (fun _ => not_mem_feed_of_mem_lines) 1 .empty).symm

/-! ## Lines one behind the other -/

theorem readLines_append (n : Nat) (t : SymbolTable) (l l' : List (List Char)) :
    readLines n t (l ++ l') = readLines n t l >>= fun u => readLines (n + l.length) u l' := by
  induction l generalizing n t with
  | nil => rfl
  | cons line l ih =>
    rw [List.cons_append, readLines_cons, readLines_cons]
    cases readLine line with
    | error fault => rfl
    | ok symbol =>
      simp only [ih, List.length_cons, Nat.add_assoc, Nat.add_comm 1]

/-- What lines list is put over the table before them, and their faults are numbered from the lines before them on. -/
theorem readLines_overriddenBy (n m : Nat) (t u : SymbolTable) (l : List (List Char)) :
    readLines (n + m) (t.overriddenBy u) l = ((readLines m u l).mapError (·.behind n)).map t.overriddenBy := by
  induction l generalizing m u with
  | nil => rfl
  | cons line l ih =>
    rw [readLines_cons, readLines_cons]
    cases readLine line with
    | error fault => rfl
    | ok symbol => simp only [SymbolTable.overriddenBy_insertAll, Nat.add_assoc, ih]

/-- Two maps one behind the other. -/
theorem parse_append (s t : String) :
    parse (s ++ "\n" ++ t) = parse s >>= fun a =>
      ((parse t).mapError (·.behind (s.toList.count '\n' + 1))).map a.overriddenBy := by
  have htext : (s ++ "\n" ++ t).toList = s.toList ++ '\n' :: t.toList := by simp
  rw [parse, htext, lines_append, readLines_append, length_lines]
  refine congrArg (parse s >>= ·) (funext fun a => ?_)
  rw [Nat.add_comm 1]
  exact readLines_overriddenBy _ 1 a .empty _

/-! ## The lines of a map -/

/-- Lines are read if each of them is. -/
theorem exists_readLines_iff :
    (∃ u, readLines n t l = .ok u) ↔ ∀ line ∈ l, ∃ symbol, readLine line = .ok symbol := by
  induction l generalizing n t with
  | nil => exact iff_of_true ⟨t, rfl⟩ nofun
  | cons line l ih =>
    rw [readLines_cons, List.forall_mem_cons]
    cases readLine line with
    | error fault => exact iff_of_false nofun fun h => nomatch h.1
    | ok symbol => exact ih.trans (and_iff_right ⟨symbol, rfl⟩).symm

/-- The line of a fault is the first one that is not read. -/
theorem readLines_eq_error_iff {f : MapFault} :
    readLines n t l = .error f ↔ ∃ before bad after, l = before ++ bad :: after ∧ f.line = n + before.length ∧
      (∀ line ∈ before, ∃ symbol, readLine line = .ok symbol) ∧ readLine bad = .error f.fault := by
  induction l generalizing n t with
  | nil => exact iff_of_false nofun fun ⟨before, bad, after, h, _⟩ => absurd h (by simp)
  | cons line l ih =>
    rw [readLines_cons]
    cases hline : readLine line with
    | error fault =>
      constructor
      · rintro ⟨⟩
        exact ⟨[], line, l, rfl, rfl, nofun, hline⟩
      · rintro ⟨before, bad, after, hsplit, hnumber, hbefore, hbad⟩
        cases before with
        | nil =>
          obtain ⟨rfl, rfl⟩ := List.cons.inj hsplit
          obtain rfl := Except.error.inj (hline.symm.trans hbad)
          obtain rfl : f.line = n := hnumber
          rfl
        | cons first before =>
          obtain ⟨rfl, -⟩ := List.cons.inj hsplit
          obtain ⟨symbol, hfirst⟩ := hbefore line List.mem_cons_self
          rw [hline] at hfirst
          cases hfirst
    | ok symbol =>
      refine ih.trans ⟨?_, ?_⟩
      · rintro ⟨before, bad, after, rfl, hnumber, hbefore, hbad⟩
        refine ⟨line :: before, bad, after, rfl, ?_, List.forall_mem_cons.2 ⟨⟨symbol, hline⟩, hbefore⟩, hbad⟩
        rw [hnumber, List.length_cons]
        omega
      · rintro ⟨before, bad, after, hsplit, hnumber, hbefore, hbad⟩
        cases before with
        | nil =>
          obtain ⟨rfl, rfl⟩ := List.cons.inj hsplit
          rw [hline] at hbad
          cases hbad
        | cons first before =>
          obtain ⟨rfl, rfl⟩ := List.cons.inj hsplit
          refine ⟨before, bad, after, rfl, ?_, fun line h => hbefore line (List.mem_cons_of_mem _ h), hbad⟩
          rw [hnumber, List.length_cons]
          omega

/-- A line as a map of its own. -/
theorem parse_ofList (h : '\n' ∉ line) :
    parse (String.ofList line) =
      ((readLine line).mapError (MapFault.mk 1)).map fun symbol => SymbolTable.empty.insertAll symbol.toList := by
  rw [parse, String.toList_ofList, lines_of_not_mem h, readLines_cons]
  cases readLine line <;> rfl

/-- The last line that lists a name decides, and before all lines the table. -/
theorem find?_of_readLines (hl : ∀ line ∈ l, '\n' ∉ line) (h : readLines n t l = .ok u) (k : String) :
    u.find? k =
      (l.reverse.findSome? fun line => (parse (String.ofList line)).toOption.bind (·.find? k)).or (t.find? k) := by
  induction l generalizing n t with
  | nil =>
    cases h
    rfl
  | cons line l ih =>
    rw [readLines_cons] at h
    cases hline : readLine line with
    | error fault =>
      rw [hline] at h
      cases h
    | ok symbol =>
      rw [hline] at h
      have hone : (parse (String.ofList line)).toOption.bind (·.find? k) = symbol.toList.reverse.lookup k := by
        rw [parse_ofList (hl line List.mem_cons_self), hline]
        show (SymbolTable.empty.insertAll symbol.toList).find? k = _
        rw [SymbolTable.find?_insertAll, SymbolTable.find?_empty, Option.or_none]
      rw [ih (fun line hline => hl line (List.mem_cons_of_mem _ hline)) h, SymbolTable.find?_insertAll,
        List.reverse_cons, List.findSome?_append, List.findSome?_singleton, hone, Option.or_assoc]

end SymbolMap

namespace SymbolTable

open SymbolMap Text

variable {t : SymbolTable} {s : String} {line : List Char}

theorem result_ofMap (s : String) : (ofMap s).result = (parse s).mapError mapFailure := by
  simp only [ofMap, Logged.result_bind, Logged.result_ofExcept, Logged.result_note, Logged.result_pure]
  cases parse s <;> rfl

theorem result_ofMap_eq_ok_iff : (ofMap s).result = .ok t ↔ parse s = .ok t := by
  rw [result_ofMap]
  cases parse s <;> simp [Except.mapError]

theorem result_ofMap_eq_error_iff {n : Nat} {reason : String} :
    (ofMap s).result = .error (.symbolMap n reason) ↔
      ∃ fault, parse s = .error ⟨n, fault⟩ ∧ fault.message = reason := by
  rw [result_ofMap]
  cases h : parse s with
  | ok t => simp [Except.mapError]
  | error f =>
    obtain ⟨m, fault⟩ := f
    simp [Except.mapError, mapFailure]

/-- How one map behind another one is read: as the second one over the first one. -/
structure ReadsAppended (s t : String) : Prop where
  failsBefore : ∀ e, (ofMap s).result = .error e → (ofMap (s ++ "\n" ++ t)).result = .error e
  failsBehind : ∀ a n reason, (ofMap s).result = .ok a → (ofMap t).result = .error (.symbolMap n reason) →
    (ofMap (s ++ "\n" ++ t)).result = .error (.symbolMap (n + 1 + s.toList.count '\n') reason)
  overrides : ∀ a b, (ofMap s).result = .ok a → (ofMap t).result = .ok b →
    (ofMap (s ++ "\n" ++ t)).result = .ok (a.overriddenBy b) ∧
      ∀ k, (a.overriddenBy b).find? k = (b.find? k).or (a.find? k)

/-- How a map is read line by line. -/
structure ReadsByLine (s : String) : Prop where
  accepted_iff : (∃ a, (ofMap s).result = .ok a) ↔
    ∀ line ∈ brokenLines s.toList, ∃ a, (ofMap (String.ofList line)).result = .ok a
  refused : ∀ e, (ofMap s).result = .error e → ∃ n reason, e = .symbolMap n reason
  refused_iff : ∀ n reason, (ofMap s).result = .error (.symbolMap n reason) ↔
    ∃ before bad after, brokenLines s.toList = before ++ bad :: after ∧ n = before.length + 1 ∧
      (∀ line ∈ before, ∃ a, (ofMap (String.ofList line)).result = .ok a) ∧
      (ofMap (String.ofList bad)).result = .error (.symbolMap 1 reason)
  lastWins : ∀ a, (ofMap s).result = .ok a → ∀ k, a.find? k =
    (brokenLines s.toList).reverse.findSome? fun line => (ofMap (String.ofList line)).result.toOption.bind (·.find? k)

theorem readsAppended (s t : String) : ReadsAppended s t where
  failsBefore e h := by
    rw [result_ofMap] at h ⊢
    rw [parse_append]
    cases hs : parse s with
    | ok a =>
      rw [hs] at h
      cases h
    | error f =>
      rw [hs] at h
      exact h
  failsBehind a n reason hs ht := by
    rw [result_ofMap_eq_ok_iff] at hs
    obtain ⟨fault, ht, hreason⟩ := result_ofMap_eq_error_iff.1 ht
    refine result_ofMap_eq_error_iff.2 ⟨fault, ?_, hreason⟩
    have hline : s.toList.count '\n' + 1 + n = n + 1 + s.toList.count '\n' := by omega
    rw [parse_append, hs, ht, ← hline]
    rfl
  overrides a b hs ht := by
    rw [result_ofMap_eq_ok_iff] at hs ht
    refine ⟨result_ofMap_eq_ok_iff.2 ?_, find?_overriddenBy a b⟩
    rw [parse_append, hs, ht]
    rfl

theorem not_mem_feed_of_mem_brokenLines {cs : List Char} (h : line ∈ brokenLines cs) : '\n' ∉ line :=
  not_mem_feed_of_mem_endLines (fun _ => not_mem_feed_of_mem_lines) h

theorem exists_ofMap_iff (h : '\n' ∉ line) :
    (∃ a, (ofMap (String.ofList line)).result = .ok a) ↔ ∃ symbol, readLine line = .ok symbol := by
  simp only [result_ofMap_eq_ok_iff, parse_ofList h]
  cases readLine line <;> simp [Except.mapError, Except.map]

theorem ofMap_line_eq_error_iff (h : '\n' ∉ line) {reason : String} :
    (ofMap (String.ofList line)).result = .error (.symbolMap 1 reason) ↔
      ∃ fault, readLine line = .error fault ∧ fault.message = reason := by
  simp only [result_ofMap_eq_error_iff, parse_ofList h]
  cases readLine line <;> simp [Except.mapError, Except.map]

theorem readsByLine (s : String) : ReadsByLine s where
  accepted_iff := by
    simp only [result_ofMap_eq_ok_iff (s := s), parse_eq_readLines, exists_readLines_iff]
    exact forall₂_congr fun line hline => (exists_ofMap_iff (not_mem_feed_of_mem_brokenLines hline)).symm
  refused e h := by
    rw [result_ofMap] at h
    cases hs : parse s with
    | ok a =>
      rw [hs] at h
      cases h
    | error f =>
      rw [hs] at h
      exact ⟨_, _, (Except.error.inj h).symm⟩
  refused_iff n reason := by
    simp only [result_ofMap_eq_error_iff (s := s), parse_eq_readLines, readLines_eq_error_iff]
    constructor
    · rintro ⟨fault, ⟨before, bad, after, hlines, hnumber, hbefore, hbad⟩, hreason⟩
      have hmem {line : List Char} (hline : line ∈ before ++ bad :: after) : '\n' ∉ line :=
        not_mem_feed_of_mem_brokenLines (hlines ▸ hline)
      refine ⟨before, bad, after, hlines, by rw [hnumber, Nat.add_comm], fun line hline => ?_, ?_⟩
      · exact (exists_ofMap_iff (hmem (List.mem_append_left _ hline))).2 (hbefore line hline)
      · exact (ofMap_line_eq_error_iff (hmem (by simp))).2 ⟨fault, hbad, hreason⟩
    · rintro ⟨before, bad, after, hlines, hnumber, hbefore, hbad⟩
      have hmem {line : List Char} (hline : line ∈ before ++ bad :: after) : '\n' ∉ line :=
        not_mem_feed_of_mem_brokenLines (hlines ▸ hline)
      obtain ⟨fault, hbad, hreason⟩ := (ofMap_line_eq_error_iff (hmem (by simp))).1 hbad
      refine ⟨fault, ⟨before, bad, after, hlines, by rw [hnumber, Nat.add_comm], fun line hline => ?_, hbad⟩, hreason⟩
      exact (exists_ofMap_iff (hmem (List.mem_append_left _ hline))).1 (hbefore line hline)
  lastWins a h k := by
    rw [result_ofMap_eq_ok_iff, parse_eq_readLines] at h
    have hfind := find?_of_readLines (fun _ => not_mem_feed_of_mem_brokenLines) h k
    rw [find?_empty, Option.or_none] at hfind
    have hoption (text : String) : (ofMap text).result.toOption = (parse text).toOption := by
      rw [result_ofMap]
      cases parse text <;> rfl
    simp only [hoption]
    exact hfind

/--
**A map behind a map** is read as the second one over the first one: a fault
of the first one is reported as it is, and one of the second one with the lines
of the first one counted. So a text is refused if and only if one of its lines
is, at the first such line, and of the lines that list a name the last one
counts.
-/
theorem ofMap_append (s t : String) : ReadsAppended s t ∧ ReadsByLine s :=
  ⟨readsAppended s t, readsByLine s⟩

/-- A symbol in a line without a line feed, before another address of it, and before a bad line. -/
theorem ofMap_append_numbered :
    (∃ a, (ofMap "1 Sm\r").result = .ok a ∧ a.find? "Sm" = some 1) ∧
    (∃ a, (ofMap "2 Sm").result = .ok a) ∧
    (∃ a, (ofMap "1 Sm\r\n2 Sm").result = .ok a ∧ a.find? "Sm" = some 2) ∧
    (ofMap "#\nSm").result = .error (.symbolMap 2 "expected 2 or 3 fields, got 1") ∧
    (ofMap "1 Sm\r\n#\nSm").result = .error (.symbolMap 3 "expected 2 or 3 fields, got 1") ∧
    (ofMap "#\nSm\n2 Sm").result = .error (.symbolMap 2 "expected 2 or 3 fields, got 1") := by
  let mapOf (address : Numeral) (after : Gap) : Listing := .last <| .entry
    { before := ⟨[], by decide⟩
      address
      kind := none
      separator := ⟨⟨[' '], by decide⟩, by decide⟩
      name := ⟨"Sm".toList, by decide, by decide⟩
      after }
  let one : Numeral := { address := 1, mark := .none, zeros := 0, digits := ['1'], isNumber := by decide }
  let two : Numeral := { address := 2, mark := .none, zeros := 0, digits := ['2'], isNumber := by decide }
  have hfirst : (ofMap "1 Sm\r").result = .ok ⟨[("Sm", 1)], by decide⟩ :=
    result_ofMap_eq_ok_iff.2 (mapOf one ⟨['\r'], by decide⟩).parse_text
  have hsecond : (ofMap "2 Sm").result = .ok ⟨[("Sm", 2)], by decide⟩ :=
    result_ofMap_eq_ok_iff.2 (mapOf two ⟨[], by decide⟩).parse_text
  have hbad : (ofMap "#\nSm").result = .error (.symbolMap 2 "expected 2 or 3 fields, got 1") := by
    have hwords : words ['S', 'm'] = [['S', 'm']] :=
      words_token_gap ⟨['S', 'm'], by decide, by decide⟩ ⟨[], by decide⟩
    have hline : readLine ['S', 'm'] = .error (.fieldCount 1) := by
      rw [readLine, hwords]
      rfl
    have hcomment : readLine ['#'] = .ok none := rfl
    refine result_ofMap_eq_error_iff.2 ⟨.fieldCount 1, ?_, by decide⟩
    show readLines 1 .empty [['#'], ['S', 'm']] = _
    simp only [readLines_cons, hcomment, hline]
  refine ⟨⟨_, hfirst, by decide⟩, ⟨_, hsecond⟩, ?_, hbad, ?_, ?_⟩
  · obtain ⟨hresult, hfind⟩ := (ofMap_append "1 Sm\r" "2 Sm").1.overrides _ _ hfirst hsecond
    exact ⟨_, hresult, hfind "Sm"⟩
  · exact (ofMap_append "1 Sm\r" "#\nSm").1.failsBehind _ _ _ hfirst hbad
  · exact (ofMap_append "#\nSm" "2 Sm").1.failsBefore _ hbad

end SymbolTable

end KernelOffsets

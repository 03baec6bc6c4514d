/-
Lookups by prefix. A lookup looks at one entry only, the first whose name is
not below the one looked for. That is enough because the names with a prefix
lie side by side: what stands between the prefix and a name that carries it
carries it too (`prefix_of_between`). Entries stand in the order of code
points, and the answer is described by the bytes of names: the encoding keeps
order and prefixes (`encoded_lt_iff`, `encoded_prefix_iff`). The main result
is `SymbolTable.resolve_first`.
-/
import KernelOffsets.Symbols.Table
import Mathlib.Data.List.Lex
import Mathlib.Tactic.SplitIfs

namespace KernelOffsets

/-! ## Encoded names -/

/-- The bytes of a name. -/
def encoded (name : String) : List UInt8 := name.toByteArray.data.toList

theorem encoded_eq_flatMap (name : String) : encoded name = name.toList.flatMap String.utf8EncodeChar := by
  have h : name.toByteArray = name.toList.utf8Encode := by rw [← String.toByteArray_ofList, String.ofList_toList]
  rw [encoded, h]
  exact List.toList_data_toByteArray

theorem ofNat_lt_ofNat {x y : Nat} (hx : x < 256) (hy : y < 256) : UInt8.ofNat x < UInt8.ofNat y ↔ x < y := by
  rw [UInt8.lt_iff_toNat_lt, UInt8.toNat_ofNat_of_lt' hx, UInt8.toNat_ofNat_of_lt' hy]

theorem ofNat_eq_ofNat {x y : Nat} (hx : x < 256) (hy : y < 256) : UInt8.ofNat x = UInt8.ofNat y ↔ x = y := by
  rw [← UInt8.toNat_inj, UInt8.toNat_ofNat_of_lt' hx, UInt8.toNat_ofNat_of_lt' hy]

/-- The bytes of two characters differ before either ends, and the smaller character has the smaller byte there. -/
theorem utf8EncodeChar_append_lt {c d : Char} (h : c < d) (s t : List UInt8) :
    String.utf8EncodeChar c ++ s < String.utf8EncodeChar d ++ t := by
  have hlt : c.val.toNat < d.val.toNat := h
  have htop : d.val.toNat < 0x110000 := by
    have := d.valid
    simp only [UInt32.isValidChar, Nat.isValidChar] at this
    omega
  -- each digit is the next one divided by 64: the digits are compared from the highest on
  have digits (v : Nat) : v / 4096 = v / 64 / 64 ∧ v / 262144 = v / 64 / 64 / 64 := by omega
  rw [String.utf8EncodeChar.eq_1 c, String.utf8EncodeChar.eq_1 d]
  generalize c.val.toNat = v at hlt
  generalize d.val.toNat = w at hlt htop
  rw [(digits v).1, (digits v).2, (digits w).1, (digits w).2]
  clear digits
  split_ifs <;>
    simp (disch := omega) only [List.cons_append, List.nil_append, List.cons_lt_cons_iff, ofNat_lt_ofNat,
      ofNat_eq_ofNat] <;>
    omega

theorem flatMap_utf8EncodeChar_lt {u v : List Char} (h : u < v) :
    u.flatMap String.utf8EncodeChar < v.flatMap String.utf8EncodeChar := by
  induction u generalizing v with
  | nil =>
    cases v with
    | nil => exact absurd h (List.not_lt_nil _)
    | cons d v =>
      obtain ⟨x, rest, hd⟩ := List.exists_cons_of_ne_nil (String.utf8EncodeChar_ne_nil (c := d))
      rw [List.flatMap_nil, List.flatMap_cons, hd]
      exact List.nil_lt_cons _ _
  | cons c u ih =>
    cases v with
    | nil => exact absurd h (List.not_lt_nil _)
    | cons d v =>
      rw [List.flatMap_cons, List.flatMap_cons]
      rcases List.cons_lt_cons_iff.1 h with hcd | ⟨rfl, hrest⟩
      · exact utf8EncodeChar_append_lt hcd _ _
      · exact List.append_left_lt (ih hrest)

/-- The byte order of names is the order of their code points. -/
theorem encoded_lt_iff {a b : String} : encoded a < encoded b ↔ a < b := by
  have mono {a b : String} (h : a < b) : encoded a < encoded b := by
    rw [encoded_eq_flatMap, encoded_eq_flatMap]
    exact flatMap_utf8EncodeChar_lt (String.lt_iff.1 h)
  refine ⟨fun h => ?_, mono⟩
  by_contra hab
  by_cases hba : b < a
  · exact List.lt_asymm h (mono hba)
  · rw [SymbolTable.eq_of_not_lt hab hba] at h
    exact List.lt_irrefl _ h

theorem flatMap_utf8EncodeChar_prefix {u v : List Char} :
    u.flatMap String.utf8EncodeChar <+: v.flatMap String.utf8EncodeChar ↔ u <+: v := by
  constructor
  · intro h
    induction u generalizing v with
    | nil => exact List.nil_prefix
    | cons c u ih =>
      cases v with
      | nil =>
        rw [List.flatMap_nil, List.prefix_nil, List.flatMap_cons] at h
        exact absurd (List.append_eq_nil_iff.1 h).1 String.utf8EncodeChar_ne_nil
      | cons d v =>
        obtain ⟨rest, hrest⟩ := h
        rw [List.flatMap_cons, List.flatMap_cons, List.append_assoc] at hrest
        rcases Std.lt_trichotomy c d with hlt | rfl | hlt
        · exact absurd (hrest ▸ utf8EncodeChar_append_lt hlt _ _) (List.lt_irrefl _)
        · exact List.cons_prefix_cons.2 ⟨rfl, ih ⟨rest, List.append_cancel_left hrest⟩⟩
        · exact absurd (hrest ▸ utf8EncodeChar_append_lt hlt _ _) (List.lt_irrefl _)
  · rintro ⟨rest, rfl⟩
    rw [List.flatMap_append]
    exact List.prefix_append _ _

/-- A name starts with another one in bytes if it does in code points. -/
theorem encoded_prefix_iff {a b : String} : encoded a <+: encoded b ↔ a.toList <+: b.toList := by
  rw [encoded_eq_flatMap, encoded_eq_flatMap, flatMap_utf8EncodeChar_prefix]

/-! ## Names with a prefix -/

theorem not_lt_of_prefix {p u : List Char} (h : p <+: u) : ¬ u < p := List.not_lt.2 h.le

/-- What stands between a prefix and a list that carries it carries it too. -/
theorem prefix_of_between {p u v : List Char} (hpu : ¬ u < p) (huv : ¬ v < u) (h : p <+: v) : p <+: u := by
  induction p generalizing u v with
  | nil => exact List.nil_prefix
  | cons c p ih =>
    obtain ⟨v, rfl, hrest⟩ := List.cons_prefix_iff.1 h
    cases u with
    | nil => exact absurd (List.nil_lt_cons c p) hpu
    | cons d u =>
      rw [List.cons_lt_cons_iff, not_or, not_and] at hpu huv
      rcases Std.lt_trichotomy c d with hcd | rfl | hdc
      · exact absurd hcd huv.1
      · exact List.cons_prefix_cons.2 ⟨rfl, ih (hpu.2 rfl) (huv.2 rfl) hrest⟩
      · exact absurd hdc hpu.1

namespace SymbolTable

variable {t : SymbolTable} {name n k : String} {a : UInt64}

/-- A symbol whose name starts with the bytes of another one. -/
def Carries (t : SymbolTable) (name k : String) : Prop :=
  (t.find? k).isSome ∧ encoded name <+: encoded k

/-- The first name, in byte order, that starts with another one. -/
structure IsFirst (t : SymbolTable) (name n : String) : Prop where
  carries : t.Carries name n
  below : ∀ k, t.Carries name k → k = n ∨ encoded n < encoded k

theorem IsFirst.unique (hn : t.IsFirst name n) (hk : t.IsFirst name k) : n = k := by
  rcases hn.below k hk.carries with rfl | hlt
  · rfl
  · rcases hk.below n hn.carries with rfl | hgt
    · rfl
    · exact absurd hgt (List.lt_asymm hlt)

/-! ## Ascending entries -/

theorem lookup_eq_some_iff {l : List (String × UInt64)} (h : l.Pairwise fun a b => a.1 < b.1) :
    l.lookup k = some a ↔ (k, a) ∈ l := by
  induction l with
  | nil => simp
  | cons e l ih =>
    obtain ⟨m, c⟩ := e
    obtain ⟨hfirst, hrest⟩ := List.pairwise_cons.1 h
    rw [lookup_entry, List.mem_cons, Prod.mk.injEq]
    by_cases hk : k = m
    · subst hk
      have hnot : (k, a) ∉ l := fun hmem => String.lt_irrefl k (hfirst _ hmem)
      simp [hnot, eq_comm]
    · simp [hk, ih hrest]

theorem find?_eq_some_iff : t.find? k = some a ↔ (k, a) ∈ t.entries :=
  lookup_eq_some_iff t.ascending

theorem carries_iff : t.Carries name k ↔ (∃ a, (k, a) ∈ t.entries) ∧ name.toList <+: k.toList := by
  rw [Carries, Option.isSome_iff_exists, encoded_prefix_iff]
  simp only [find?_eq_some_iff]

theorem Carries.not_lt (h : t.Carries name k) : ¬ k < name := by
  rw [String.lt_iff]
  exact not_lt_of_prefix (carries_iff.1 h).2

/-- What is left of ascending entries without those below a name starts with the first one that is not. -/
theorem dropWhile_cases {l : List (String × UInt64)} (h : l.Pairwise fun a b => a.1 < b.1) (name : String) :
    (l.dropWhile (fun e => e.1 < name) = [] ∧ ∀ e ∈ l, e.1 < name) ∨
      ∃ e rest, l.dropWhile (fun e => e.1 < name) = e :: rest ∧ e ∈ l ∧ ¬ e.1 < name ∧
        ∀ d ∈ l, d.1 < name ∨ d = e ∨ e.1 < d.1 := by
  induction l with
  | nil => simp
  | cons e l ih =>
    obtain ⟨hfirst, hrest⟩ := List.pairwise_cons.1 h
    by_cases he : e.1 < name
    · rw [List.dropWhile_cons_of_pos (by simpa using he)]
      rcases ih hrest with ⟨hdrop, hbelow⟩ | ⟨d, rest, hdrop, hmem, hge, hothers⟩
      · exact .inl ⟨hdrop, List.forall_mem_cons.2 ⟨he, hbelow⟩⟩
      · exact .inr ⟨d, rest, hdrop, List.mem_cons_of_mem e hmem, hge, List.forall_mem_cons.2 ⟨.inl he, hothers⟩⟩
    · rw [List.dropWhile_cons_of_neg (by simpa using he)]
      refine .inr ⟨e, l, rfl, List.mem_cons_self, he, List.forall_mem_cons.2 ⟨.inr (.inl rfl), fun d hd => ?_⟩⟩
      exact .inr (.inr (hfirst d hd))

/-! ## Lookups -/

theorem resolve_of_cons {rest : List (String × UInt64)}
    (h : t.entries.dropWhile (fun e => e.1 < name) = (n, a) :: rest) :
    t.resolve name = if name.toList <+: n.toList then some a else none := by
  rw [resolve, h]
  exact if_congr List.isPrefixOf_iff_prefix rfl rfl

/-- A lookup finds the first name with the prefix if there is any name with it. -/
theorem resolve_cases (t : SymbolTable) (name : String) :
    (∃ n a, t.IsFirst name n ∧ t.find? n = some a ∧ t.resolve name = some a) ∨
      (∀ k, ¬ t.Carries name k) ∧ t.resolve name = none := by
  rcases dropWhile_cases t.ascending name with ⟨hdrop, hbelow⟩ | ⟨⟨n, a⟩, rest, hdrop, hmem, hge, hothers⟩
  · refine .inr ⟨fun k hk => ?_, by rw [resolve, hdrop]⟩
    obtain ⟨b, hb⟩ := (carries_iff.1 hk).1
    exact hk.not_lt (hbelow _ hb)
  · have hafter (k : String) (hk : t.Carries name k) : k = n ∨ n < k := by
      obtain ⟨b, hb⟩ := (carries_iff.1 hk).1
      rcases hothers _ hb with hlt | heq | hlt
      · exact absurd hlt hk.not_lt
      · exact .inl (congrArg Prod.fst heq)
      · exact .inr hlt
    by_cases hprefix : name.toList <+: n.toList
    · refine .inl ⟨n, a, ⟨carries_iff.2 ⟨⟨a, hmem⟩, hprefix⟩, fun k hk => ?_⟩, find?_eq_some_iff.2 hmem, ?_⟩
      · rw [encoded_lt_iff]
        exact hafter k hk
      · rw [resolve_of_cons hdrop, if_pos hprefix]
    · refine .inr ⟨fun k hk => hprefix ?_, by rw [resolve_of_cons hdrop, if_neg hprefix]⟩
      have hcarried := (carries_iff.1 hk).2
      rcases hafter k hk with rfl | hlt
      · exact hcarried
      · rw [String.lt_iff] at hge hlt
        exact prefix_of_between hge (List.lt_asymm hlt) hcarried

theorem resolve_eq_some_iff : t.resolve name = some a ↔ ∃ n, t.IsFirst name n ∧ t.find? n = some a := by
  rcases resolve_cases t name with ⟨n, b, hfirst, hfind, hresolve⟩ | ⟨hnone, hresolve⟩
  · rw [hresolve]
    constructor
    · rintro ⟨⟩
      exact ⟨n, hfirst, hfind⟩
    · rintro ⟨k, hk, hka⟩
      rw [← hfind, hfirst.unique hk, hka]
  · rw [hresolve]
    exact ⟨nofun, fun ⟨n, hn, _⟩ => absurd hn.carries (hnone n)⟩

theorem resolve_eq_none_iff : t.resolve name = none ↔ ∀ k, ¬ t.Carries name k := by
  rcases resolve_cases t name with ⟨n, b, hfirst, -, hresolve⟩ | ⟨hnone, hresolve⟩
  · rw [hresolve]
    exact ⟨nofun, fun h => absurd hfirst.carries (h n)⟩
  · exact iff_of_true hresolve hnone

/-- A name is the first one that starts with it. -/
theorem isFirst_self (h : t.find? name = some a) : t.IsFirst name name := by
  refine ⟨⟨by simp [h], List.prefix_refl _⟩, fun k hk => ?_⟩
  rw [encoded_lt_iff]
  by_cases hlt : name < k
  · exact .inr hlt
  · exact .inl (eq_of_not_lt hk.not_lt hlt)

/-! ## Tables made of insertions -/

/-- The table with some more symbols, inserted one after the other. -/
def insertAll (t : SymbolTable) (symbols : List (String × UInt64)) : SymbolTable :=
  symbols.foldl (fun t e => t.insert e.1 e.2) t

theorem find?_insertAll (t : SymbolTable) (symbols : List (String × UInt64)) (k : String) :
    (t.insertAll symbols).find? k = (symbols.reverse.lookup k).or (t.find? k) := by
  induction symbols generalizing t with
  | nil => rfl
  | cons e symbols ih =>
    have hone : (t.insert e.1 e.2).find? k = ([e].lookup k).or (t.find? k) := by
      rw [find?_insert, lookup_entry]
      split <;> rfl
    calc ((t.insert e.1 e.2).insertAll symbols).find? k
        = (symbols.reverse.lookup k).or (([e].lookup k).or (t.find? k)) := by rw [ih, hone]
      _ = ((e :: symbols).reverse.lookup k).or (t.find? k) := by
        rw [List.reverse_cons, List.lookup_append, Option.or_assoc]

/-- Lookups in two tables agree if the tables have the same addresses under the same names. -/
theorem resolve_congr {t u : SymbolTable} (h : ∀ k, t.find? k = u.find? k) (name : String) :
    t.resolve name = u.resolve name := by
  have hcarries (k : String) : t.Carries name k ↔ u.Carries name k := by rw [Carries, Carries, h]
  have hfirst (n : String) : t.IsFirst name n ↔ u.IsFirst name n :=
    ⟨fun ⟨hn, hbelow⟩ => ⟨(hcarries n).1 hn, fun k hk => hbelow k ((hcarries k).2 hk)⟩,
      fun ⟨hn, hbelow⟩ => ⟨(hcarries n).2 hn, fun k hk => hbelow k ((hcarries k).1 hk)⟩⟩
  refine Option.ext fun a => ?_
  simp only [resolve_eq_some_iff, hfirst, h]

/-- **A lookup answers with the first name that carries the prefix**, in the byte order of names, and with none if
no name does. A symbol of the very name comes before all others, and of the insertions that made a table only the
last one of each name counts. -/
theorem resolve_first (t : SymbolTable) (name : String) :
    (∀ a, t.resolve name = some a ↔ ∃ n, t.IsFirst name n ∧ t.find? n = some a) ∧
    (t.resolve name = none ↔ ∀ k, ¬ t.Carries name k) ∧
    (∀ a, t.find? name = some a → t.resolve name = some a) ∧
    ∀ symbols symbols' : List (String × UInt64),
      (∀ k, symbols.reverse.lookup k = symbols'.reverse.lookup k) →
        (t.insertAll symbols).resolve name = (t.insertAll symbols').resolve name := by
  refine ⟨fun a => resolve_eq_some_iff, resolve_eq_none_iff, fun a h => ?_, fun symbols symbols' h => ?_⟩
  · exact resolve_eq_some_iff.2 ⟨name, isFirst_self h, h⟩
  · refine resolve_congr (fun k => ?_) name
    rw [find?_insertAll, find?_insertAll, h]

/-- A name with which two others start, inserted first and last: its last address counts in either order. -/
theorem resolve_first_inserted :
    let symbols : List (String × UInt64) := [("Sm", 1), ("Smé", 2), ("Sm𝄞", 3), ("Sm", 4)]
    let symbols' : List (String × UInt64) := [("Sm𝄞", 3), ("Sm", 4), ("Smé", 2)]
    (empty.insertAll symbols).find? "Sm" = some 4 ∧ (empty.insertAll symbols).resolve "Sm" = some 4 ∧
    (∀ k, symbols.reverse.lookup k = symbols'.reverse.lookup k) ∧
    (empty.insertAll symbols).resolve "Smé" = (empty.insertAll symbols').resolve "Smé" := by
  intro symbols symbols'
  have hfind : (empty.insertAll symbols).find? "Sm" = some 4 := by decide +kernel
  have hlast (k : String) : symbols.reverse.lookup k = symbols'.reverse.lookup k := by
    have hsymbols : symbols.reverse = [("Sm", 4), ("Sm𝄞", 3), ("Smé", 2), ("Sm", 1)] := rfl
    have hsymbols' : symbols'.reverse = [("Smé", 2), ("Sm", 4), ("Sm𝄞", 3)] := rfl
    rw [hsymbols, hsymbols']
    simp only [lookup_entry, List.lookup_nil]
    split_ifs <;> simp_all
  exact ⟨hfind, (resolve_first _ "Sm").2.2.1 4 hfind, hlast, (resolve_first empty "Smé").2.2.2 symbols symbols' hlast⟩

end SymbolTable

end KernelOffsets

/-
Symbol tables: names with addresses, kept in the order of the names' code
points, which is also the byte order of their encoded form. A lookup takes
the first name that starts with the one looked for, so that the stable head
of a decorated name is enough. Under a name the table answers with the address
last inserted for it, which is `find?_insert`.
-/
namespace KernelOffsets

/-- Where symbols are looked up. -/
abbrev SymbolSource := String → Option UInt64

/-- Names in ascending order, each with an address. -/
structure SymbolTable where
  entries : List (String × UInt64)
  ascending : entries.Pairwise fun a b => a.1 < b.1

namespace SymbolTable

/-- A table without symbols. -/
def empty : SymbolTable := ⟨[], .nil⟩

/-- Puts a name into ascending entries, in place of an entry of the same name. -/
def put (name : String) (address : UInt64) : List (String × UInt64) → List (String × UInt64)
  | [] => [(name, address)]
  | e :: rest =>
    if name < e.1 then (name, address) :: e :: rest
    else if e.1 < name then e :: put name address rest
    else (name, address) :: rest

theorem mem_put {name : String} {address : UInt64} {e : String × UInt64} :
    ∀ {l : List (String × UInt64)}, e ∈ put name address l → e = (name, address) ∨ e ∈ l
  | [], h => by simpa [put] using h
  | d :: rest, h => by
    unfold put at h
    split at h
    · simpa using h
    · split at h
      · rcases List.mem_cons.1 h with rfl | h
        · simp
        · rcases mem_put h with h | h
          · exact .inl h
          · exact .inr (List.mem_cons_of_mem _ h)
      · rcases List.mem_cons.1 h with h | h
        · exact .inl h
        · exact .inr (List.mem_cons_of_mem _ h)

theorem eq_of_not_lt {a b : String} (h : ¬ a < b) (h' : ¬ b < a) : a = b :=
  String.le_antisymm (String.not_lt.1 h') (String.not_lt.1 h)

theorem put_ascending (name : String) (address : UInt64) :
    ∀ {l : List (String × UInt64)}, l.Pairwise (fun a b => a.1 < b.1) →
      (put name address l).Pairwise fun a b => a.1 < b.1
  | [], _ => by simp [put]
  | d :: rest, h => by
    obtain ⟨hd, hr⟩ := List.pairwise_cons.1 h
    unfold put
    split
    · rename_i hlt
      refine List.pairwise_cons.2 ⟨fun e he => ?_, h⟩
      rcases List.mem_cons.1 he with rfl | he
      · exact hlt
      · exact String.lt_trans hlt (hd e he)
    · rename_i hge
      split
      · rename_i hgt
        refine List.pairwise_cons.2 ⟨fun e he => ?_, put_ascending name address hr⟩
        rcases mem_put he with rfl | he
        · exact hgt
        · exact hd e he
      · rename_i hle
        have heq : name = d.1 := eq_of_not_lt hge hle
        exact List.pairwise_cons.2 ⟨fun e he => heq ▸ hd e he, hr⟩

/-- The table with one more symbol; a symbol of the same name is replaced. -/
def insert (t : SymbolTable) (name : String) (address : UInt64) : SymbolTable :=
  ⟨put name address t.entries, put_ascending name address t.ascending⟩

/-- The number of symbols. -/
def size (t : SymbolTable) : Nat := t.entries.length

/-- Whether there is no symbol. -/
def isEmpty (t : SymbolTable) : Bool := t.entries.isEmpty

/-- The address stored under exactly this name. -/
def find? (t : SymbolTable) (name : String) : Option UInt64 :=
  t.entries.lookup name

/-- The address under a name, or else under the first name that starts with it. -/
def resolve (t : SymbolTable) : SymbolSource := fun name =>
  match t.entries.dropWhile (fun e => e.1 < name) with
  | (n, address) :: _ => if name.toList.isPrefixOf n.toList then some address else none
  | [] => none

theorem lookup_entry (k : String) (e : String × UInt64) (l : List (String × UInt64)) :
    (e :: l).lookup k = if k = e.1 then some e.2 else l.lookup k := by
  obtain ⟨n, a⟩ := e
  rw [List.lookup_cons]
  by_cases h : k = n
  · simp [h]
  · rw [beq_eq_false_iff_ne.2 h, if_neg h]

theorem lookup_put (name : String) (address : UInt64) (k : String) :
    ∀ l : List (String × UInt64),
      (put name address l).lookup k = if k = name then some address else l.lookup k
  | [] => lookup_entry k (name, address) []
  | d :: rest => by
    unfold put
    split
    · exact lookup_entry k (name, address) (d :: rest)
    · rename_i hge
      split
      · rename_i hgt
        rw [lookup_entry, lookup_entry, lookup_put name address k rest]
        by_cases h : k = d.1
        · have hne : k ≠ name := fun e => String.lt_irrefl name (by rw [← e] at hgt ⊢; rwa [← h] at hgt)
          simp [h, h ▸ hne]
        · simp [h]
      · rename_i hle
        have heq : name = d.1 := eq_of_not_lt hge hle
        rw [lookup_entry, lookup_entry, ← heq]
        split <;> rfl

/-- **A table answers with the address last inserted under a name.** -/
theorem find?_insert (t : SymbolTable) (name : String) (address : UInt64) (k : String) :
    (t.insert name address).find? k = if k = name then some address else t.find? k :=
  lookup_put name address k t.entries

@[simp] theorem find?_empty (k : String) : empty.find? k = none := rfl

end SymbolTable

end KernelOffsets

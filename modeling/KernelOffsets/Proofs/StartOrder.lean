/-
The blocks in the order of their addresses. The lookup of an address takes the
last block that starts at or before it, and finds it only if that block holds
it. A block that passes the end of the address space starts above some of its
instructions, and those are not found (`ControlFlow.blockAt?_eq_some_iff`); in
code that does not pass it the lookup is a search among the contents of the
blocks (`ControlFlow.blockAt?_of_ascending`).
-/
import KernelOffsets.Proofs.Blocks

namespace KernelOffsets.ControlFlow

/-! ## Sorted blocks -/

theorem pairwise_start {blocks : List Block}
    (h : (blocks.flatMap Block.instructions).Pairwise fun i j => i.ip < j.ip) :
    blocks.Pairwise fun b b' => b.start < b'.start :=
  (List.pairwise_flatMap.1 h).2.imp fun hlt => hlt _ List.mem_cons_self _ List.mem_cons_self

section Sorted

variable {f : ControlFlow} {b : Block} {a : UInt64}

/-- Blocks that start at one address, no two at the same one, have but one order. -/
theorem eq_of_perm_of_start {found found' : List Block} (hperm : found.Perm found')
    (hdistinct : found'.Pairwise fun b c => b.start ≠ c.start) (hstart : ∀ b ∈ found', b.start = a) :
    found = found' := by
  rcases found' with - | ⟨b, - | ⟨c, rest⟩⟩
  · exact hperm.eq_nil
  · exact List.perm_singleton.1 hperm
  · have hne := (List.pairwise_cons.1 hdistinct).1 c List.mem_cons_self
    exact absurd ((hstart b (by simp)).trans (hstart c (by simp)).symm) hne

theorem byStart_perm (f : ControlFlow) : f.byStart.Perm f.blocks := List.mergeSort_perm _ _

theorem mem_byStart : b ∈ f.byStart ↔ b ∈ f.blocks := f.byStart_perm.mem_iff

theorem pairwise_byStart (f : ControlFlow) : f.byStart.Pairwise fun b b' => b.start ≤ b'.start := by
  have hsorted : f.byStart.Pairwise fun b b' => decide (b.start ≤ b'.start) := by
    refine List.pairwise_mergeSort ?_ ?_ f.blocks
    · intro b₁ b₂ b₃ h h'
      exact decide_eq_true (UInt64.le_trans (of_decide_eq_true h) (of_decide_eq_true h'))
    · intro b₁ b₂
      simpa using UInt64.le_total b₁.start b₂.start
  exact hsorted.imp fun h => of_decide_eq_true h

theorem byStart_eq (h : f.blocks.Pairwise fun b b' => b.start < b'.start) : f.byStart = f.blocks :=
  List.mergeSort_of_pairwise (h.imp fun hlt => decide_eq_true (UInt64.le_of_lt hlt))

/-- What is found starts at or before the address and holds an instruction there. -/
theorem of_blockAt? (h : f.blockAt? a = some b) : b ∈ f.blocks ∧ b.start ≤ a ∧ ∃ i ∈ b.instructions, i.ip = a := by
  obtain ⟨hlast, hany⟩ := Option.filter_eq_some_iff.1 h
  obtain ⟨hmem, hstart⟩ := List.mem_filter.1 (List.mem_of_getLast? hlast)
  simp only [List.any_eq_true, beq_iff_eq] at hany
  exact ⟨mem_byStart.1 hmem, of_decide_eq_true hstart, hany⟩

/-- A block is found if no other one starts between it and the address. -/
theorem blockAt?_of_last (hb : b ∈ f.blocks) (hstart : b.start ≤ a) (hi : ∃ i ∈ b.instructions, i.ip = a)
    (hlast : ∀ c ∈ f.blocks, b.start ≤ c.start → c.start ≤ a → c = b) : f.blockAt? a = some b := by
  have hmem : b ∈ f.byStart.filter (·.start ≤ a) := List.mem_filter.2 ⟨mem_byStart.2 hb, decide_eq_true hstart⟩
  obtain ⟨c, hc⟩ := Option.isSome_iff_exists.1 (List.getLast?_isSome.2 (List.ne_nil_of_mem hmem))
  obtain ⟨hcmem, hcstart⟩ := List.mem_filter.1 (List.mem_of_getLast? hc)
  have hle : b.start ≤ c.start := by
    have hsorted := f.pairwise_byStart.filter (·.start ≤ a)
    obtain ⟨before, hbefore⟩ := List.getLast?_eq_some_iff.1 hc
    rw [hbefore] at hmem hsorted
    rcases List.mem_append.1 hmem with hmem | hmem
    · exact (List.pairwise_append.1 hsorted).2.2 b hmem c (List.mem_singleton_self c)
    · rw [List.mem_singleton.1 hmem]
      exact UInt64.le_refl _
  obtain rfl := hlast c (mem_byStart.1 hcmem) hle (of_decide_eq_true hcstart)
  refine Option.filter_eq_some_iff.2 ⟨hc, ?_⟩
  simpa only [List.any_eq_true, beq_iff_eq] using hi

end Sorted

/-! ## The block that holds an address -/

/-- What stands between two addresses stands between them in the order of the distances from a start too. -/
theorem distance_between {start a b c : UInt64} (hac : a ≤ c) (hcb : c ≤ b) (hab : a - start ≤ b - start) :
    a - start ≤ c - start ∧ c - start ≤ b - start := by
  have ha := a.toNat_lt
  have hb := b.toNat_lt
  have hstart := start.toNat_lt
  simp only [UInt64.le_iff_toNat_le, UInt64.toNat_sub] at *
  omega

/-- The block that holds an instruction at an address, wherever it starts. -/
def holder? (f : ControlFlow) (a : UInt64) : Option Block :=
  f.blocks.find? fun b => b.instructions.any (·.ip == a)

variable {range : CodeRange} {l : List Instruction} {b c : Block} {i : Instruction} {a : UInt64} {chain : List UInt64}

theorem holder?_eq_some_iff (h : IsListing range l) :
    (ofInstructions range l).holder? a = some b ↔
      b ∈ (ofInstructions range l).blocks ∧ ∃ i ∈ b.instructions, i.ip = a := by
  have holds : ∀ {b}, (ofInstructions range l).holder? a = some b →
      b ∈ (ofInstructions range l).blocks ∧ ∃ i ∈ b.instructions, i.ip = a := by
    intro b hfound
    have hany := List.find?_some hfound
    simp only [List.any_eq_true, beq_iff_eq] at hany
    exact ⟨List.mem_of_find?_eq_some hfound, hany⟩
  refine ⟨holds, ?_⟩
  rintro ⟨hb, i, hi, rfl⟩
  have hany : b.instructions.any (·.ip == i.ip) = true := List.any_eq_true.2 ⟨i, hi, beq_self_eq_true _⟩
  obtain ⟨c, hc⟩ : ∃ c, (ofInstructions range l).holder? i.ip = some c :=
    Option.isSome_iff_exists.1 (List.find?_isSome.2 ⟨b, hb, hany⟩)
  obtain ⟨hmem, j, hj, hip⟩ := holds hc
  obtain ⟨rfl, -⟩ := eq_of_ip_eq h hmem hb hj hi hip
  exact hc

/-- The instructions of one block stand at smaller distances from the start than those of another one. -/
def Precedes (range : CodeRange) (b c : Block) : Prop :=
  ∀ x ∈ b.instructions, ∀ y ∈ c.instructions, x.ip - range.start < y.ip - range.start

theorem eq_head_or {r : Instruction → Instruction → Prop} (hl : l.Pairwise r)
    (hb : b ∈ (ofInstructions range l).blocks) (hi : i ∈ b.instructions) : i = b.head ∨ r b.head i := by
  rw [← instructions_ofInstructions range l] at hl
  exact (List.mem_cons.1 hi).imp_right ((List.pairwise_cons.1 ((List.pairwise_flatMap.1 hl).1 b hb)).1 i)

theorem pairwise_blocks_start (hl : l.Pairwise fun i j => i.ip < j.ip) :
    (ofInstructions range l).blocks.Pairwise fun b c => b.start < c.start := by
  rw [← instructions_ofInstructions range l] at hl
  exact pairwise_start hl

theorem start_le (hl : l.Pairwise fun i j => i.ip < j.ip) (hb : b ∈ (ofInstructions range l).blocks)
    (hi : i ∈ b.instructions) : b.start ≤ i.ip := by
  rcases eq_head_or hl hb hi with rfl | hlt
  · exact UInt64.le_refl _
  · exact UInt64.le_of_lt hlt

section Spread

variable (h : IsSpread range l)
include h

theorem pairwise_precedes : (ofInstructions range l).blocks.Pairwise (Precedes range) := by
  have hrising := h.rising
  rw [← instructions_ofInstructions range l] at hrising
  exact (List.pairwise_flatMap.1 hrising).2

theorem distance_start_le (hb : b ∈ (ofInstructions range l).blocks) (hi : i ∈ b.instructions) :
    b.start - range.start ≤ i.ip - range.start := by
  rcases eq_head_or h.rising hb hi with rfl | hlt
  · exact UInt64.le_refl _
  · exact UInt64.le_of_lt hlt

/-- Between the start of a block and an instruction of it no other block starts. -/
theorem eq_of_between (hb : b ∈ (ofInstructions range l).blocks) (hc : c ∈ (ofInstructions range l).blocks)
    (hi : i ∈ b.instructions) (hbc : b.start ≤ c.start) (hci : c.start ≤ i.ip) : c = b := by
  by_contra hne
  obtain ⟨hstart, hip⟩ := distance_between hbc hci (distance_start_le h hb hi)
  have hpairs : (ofInstructions range l).blocks.Pairwise fun b c => Precedes range b c ∨ Precedes range c b :=
    (pairwise_precedes h).imp Or.inl
  have hsymm : Std.Symm fun b c => Precedes range b c ∨ Precedes range c b := ⟨fun _ _ => Or.symm⟩
  rcases hpairs.forall hc hb hne with hbefore | hbehind
  · exact UInt64.not_lt.2 hstart (hbefore c.head List.mem_cons_self b.head List.mem_cons_self)
  · exact UInt64.not_lt.2 hip (hbehind i hi c.head List.mem_cons_self)

/-- **The lookup by starts** finds the block that holds the address, unless that block starts above it. -/
theorem blockAt?_eq_some_iff :
    (ofInstructions range l).blockAt? a = some b ↔
      b ∈ (ofInstructions range l).blocks ∧ b.start ≤ a ∧ ∃ i ∈ b.instructions, i.ip = a := by
  refine ⟨of_blockAt?, ?_⟩
  rintro ⟨hb, hstart, i, hi, rfl⟩
  exact blockAt?_of_last hb hstart ⟨i, hi, rfl⟩ fun c hc hbc hci => eq_of_between h hb hc hi hbc hci

theorem blockAt?_eq_filter (a : UInt64) :
    (ofInstructions range l).blockAt? a = ((ofInstructions range l).holder? a).filter (·.start ≤ a) := by
  ext b
  rw [blockAt?_eq_some_iff h, Option.filter_eq_some_iff, holder?_eq_some_iff h.toIsListing, decide_eq_true_eq, and_assoc,
    and_comm (a := b.start ≤ a)]

theorem ascending_of_inside (hinside : ∀ i ∈ l, range.contains i.ip = true) : l.Pairwise fun i j => i.ip < j.ip := by
  refine h.rising.imp_of_mem fun {i j} hi hj hlt => ?_
  have hi := hinside i hi
  have hj := hinside j hj
  simp only [CodeRange.contains, Bool.and_eq_true, decide_eq_true_eq] at hi hj
  rw [UInt64.lt_iff_toNat_lt, UInt64.toNat_sub_of_le _ _ hi.1, UInt64.toNat_sub_of_le _ _ hj.1] at hlt
  rw [UInt64.lt_iff_toNat_lt]
  omega

/-- **In code that does not pass the end of the address space** the lookup is a search among the contents. -/
theorem blockAt?_of_ascending (hl : l.Pairwise fun i j => i.ip < j.ip) (a : UInt64) :
    (ofInstructions range l).blockAt? a = (ofInstructions range l).holder? a := by
  rw [blockAt?_eq_filter h]
  cases hb : (ofInstructions range l).holder? a with
  | none => rfl
  | some b =>
    obtain ⟨hmem, i, hi, rfl⟩ := (holder?_eq_some_iff h.toIsListing).1 hb
    rw [Option.filter_some, if_pos (decide_eq_true (start_le hl hmem hi))]

/-! ## The blocks that can be reached -/

/-- Where no branch leads into the code, only the entry is reached. -/
theorem eq_start_of_chain (hempty : ∀ a, range.contains a = false)
    (hchain : (ofInstructions range l).search.chains[a]? = some chain) : a = range.start := by
  obtain ⟨-, htree⟩ := isTree_search hchain
  rcases htree.cases hchain with ⟨rfl, -⟩ | ⟨p, rest, -, -, block, hblock, hleads, -⟩
  · rfl
  · obtain ⟨hb, -⟩ := (getElem?_index h.toIsListing).1 hblock
    have hcontains := contains_of_mem_successors hb hleads
    rw [hempty] at hcontains
    cases hcontains

/-- **The blocks that can be reached** are decoded in the order of their addresses. -/
theorem reachable_eq_filter :
    (ofInstructions range l).reachable =
      (ofInstructions range l).blocks.filter fun b => (ofInstructions range l).search.chains.contains b.start := by
  rcases h.inside with hinside | hempty
  · rw [reachable, byStart_eq (pairwise_blocks_start (ascending_of_inside h hinside))]
  · have hdistinct : (ofInstructions range l).blocks.Pairwise fun b c => b.start ≠ c.start :=
      (pairwise_blocks h.toIsListing).imp fun hne => hne _ List.mem_cons_self _ List.mem_cons_self
    refine eq_of_perm_of_start (a := range.start) ((byStart_perm _).filter _) (hdistinct.filter _) fun b hb => ?_
    obtain ⟨chain, hchain⟩ := contains_iff.1 (List.mem_filter.1 hb).2
    exact eq_start_of_chain h hempty hchain

end Spread

end KernelOffsets.ControlFlow

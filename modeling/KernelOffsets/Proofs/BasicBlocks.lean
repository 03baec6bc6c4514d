/-
The blocks are basic blocks. A block ends only where control is passed on or
another block has to start; a block has to start where a branch leads and
behind an instruction that passes control on, and nowhere else
(`ControlFlow.starts_of_tail`). So a block leads where its last instruction
leads, or on to the next block (`ControlFlow.successors_eq_next`), and the block
that is found at an address is the only one that holds it
(`ControlFlow.blockAt?_eq_some_iff_holds`).
-/
import KernelOffsets.Proofs.BlockPass
import KernelOffsets.Proofs.Lookups

namespace KernelOffsets

/-! ## Branches -/

/--
A branch to the address that its operand names, which is zero for the selector
and offset of a far one. Calls come back and transactions go on behind
themselves, so neither is a branch.
-/
def Instruction.BranchesTo (i : Instruction) (a : UInt64) : Prop :=
  i.isInvalid = false ∧ (i.flow = .conditionalBranch ∨ i.flow = .unconditionalBranch) ∧ i.nearTarget = a

namespace Instruction

variable {i : Instruction} {range : CodeRange} {successors : List UInt64} {a : UInt64}

theorem BranchesTo.exists_successors (h : i.BranchesTo a) (ha : range.contains a = true) :
    ∃ successors, i.successors? range = some successors ∧ a ∈ successors := by
  obtain ⟨hvalid, hflow | hflow, rfl⟩ := h <;> simp [successors?, hvalid, hflow, ha]

theorem branchesTo_or_eq_nextIp (h : i.successors? range = some successors) (ha : a ∈ successors) :
    i.BranchesTo a ∨ a = i.nextIp := by
  unfold successors? at h
  split at h
  · cases h
    cases ha
  · rename_i hvalid
    split at h <;> cases h
    · rename_i hflow
      rcases List.mem_pair.1 (List.mem_filter.1 ha).1 with rfl | hnext
      · exact .inl ⟨eq_false_of_ne_true hvalid, .inl hflow, rfl⟩
      · exact .inr hnext
    · rename_i hflow
      obtain rfl := List.mem_singleton.1 (List.mem_filter.1 ha).1
      exact .inl ⟨eq_false_of_ne_true hvalid, .inr hflow, rfl⟩
    all_goals cases ha

end Instruction

theorem IsAscending.isSpread {range : CodeRange} {l : List Instruction} (h : IsAscending range l) :
    IsSpread range l := by
  refine ⟨h.toIsListing, ?_, .inl h.inside, ?_⟩
  · refine h.ascending.imp_of_mem fun {i j} hi hj hlt => ?_
    have hi := h.inside i hi
    have hj := h.inside j hj
    simp only [CodeRange.contains, Bool.and_eq_true, decide_eq_true_eq] at hi hj
    rw [UInt64.lt_iff_toNat_lt] at hlt ⊢
    rw [UInt64.toNat_sub_of_le _ _ hi.1, UInt64.toNat_sub_of_le _ _ hj.1]
    have hstart := UInt64.le_iff_toNat_le.1 hi.1
    omega
  · intro i hi j hj hnext
    have hstops := h.stops i hi
    rw [← hnext, h.inside j hj] at hstops
    cases hstops

namespace ControlFlow

variable {range : CodeRange} {l : List Instruction} {b : Block} {i j : Instruction} {a : UInt64}
  {before after : List Block}

/-! ## Where blocks start, and where they lead -/

theorem successors?_of_mem_dropLast (hb : b ∈ (ofInstructions range l).blocks) (hi : i ∈ b.instructions.dropLast) :
    i.successors? range = none := by
  have hchain := isChain_continues hb
  obtain ⟨init, rest, hsplit⟩ := List.append_of_mem hi
  rw [← List.dropLast_append_getLast (show b.instructions ≠ [] from List.cons_ne_nil _ _), hsplit,
    List.append_assoc, List.cons_append] at hchain
  obtain ⟨k, more, hmore⟩ := List.exists_cons_of_ne_nil (List.concat_ne_nil (b.instructions.getLast _) rest)
  rw [hmore] at hchain
  have hcontinues := (List.isChain_cons_cons.1 (List.isChain_append.1 hchain).2.1).1
  rw [continues, Bool.and_eq_true, Option.isNone_iff_eq_none] at hcontinues
  exact hcontinues.1

section Ascending

variable (h : IsAscending range l)
include h

theorem start_ne_of_tail (hb : b ∈ (ofInstructions range l).blocks.tail) : b.start ≠ range.start := by
  have hpairs : (ofInstructions range l).blocks.Pairwise fun b b' => b.start < b'.start :=
    pairwise_blocks_start h.ascending
  cases hblocks : (ofInstructions range l).blocks with
  | nil =>
    rw [hblocks] at hb
    cases hb
  | cons b₀ blocks =>
    rw [hblocks] at hb hpairs
    have hfirst : b₀.start = range.start := by
      refine h.first b₀.head ?_
      rw [← instructions_ofInstructions range l, instructions, hblocks]
      rfl
    rw [← hfirst]
    exact (UInt64.ne_of_lt ((List.pairwise_cons.1 hpairs).1 b hb)).symm

/-- A branch to an instruction leads to the start of a block. -/
theorem exists_start_of_branchesTo (hi : i ∈ l) (hj : j ∈ l) (hbranch : i.BranchesTo j.ip) :
    ∃ b ∈ (ofInstructions range l).blocks, b.head = j := by
  obtain ⟨successors, hs, hmem⟩ := hbranch.exists_successors (h.inside j hj)
  obtain ⟨b, hb, hjb⟩ := exists_block range hj
  exact ⟨b, hb, head_eq_of_contains hb hjb (contains_leaders_iff.2 (.inr ⟨i, hi, successors, hs, .inr hmem⟩))⟩

/-- **Every block but the first one** starts where a branch leads, or behind an instruction that ends a block. -/
theorem starts_of_tail (hb : b ∈ (ofInstructions range l).blocks.tail) :
    ∃ i ∈ l, i.BranchesTo b.start ∨ [i, b.head] <:+: l ∧ (i.successors? range).isSome = true := by
  have hmem := List.mem_of_mem_tail hb
  have hhead : b.head ∈ l := mem_listing hmem List.mem_cons_self
  have hnot := start_ne_of_tail h hb
  rcases contains_leaders_iff.1 (contains_leaders_start h.toIsListing hmem) with hstart | ⟨k, hk, successors, hs, ha⟩
  · exact absurd hstart hnot
  · have hnext : b.start = k.nextIp → [k, b.head] <:+: l := fun hnext =>
      (eq_start_or_behind h.isSpread hk hhead hnext).resolve_left hnot
    have hsome : (k.successors? range).isSome = true := by rw [hs]; rfl
    refine ⟨k, hk, ?_⟩
    rcases ha with ha | ha
    · exact .inr ⟨hnext ha, hsome⟩
    · rcases Instruction.branchesTo_or_eq_nextIp hs ha with hbranch | ha
      · exact .inl hbranch
      · exact .inr ⟨hnext ha, hsome⟩

/-- **A block leads** where its last instruction leads; one that ends by itself at the next block leads there. -/
theorem successors_eq_next (hblocks : (ofInstructions range l).blocks = before ++ b :: after) :
    b.successors = ((Block.last b.head b.tail).successors? range).getD (after.head?.map Block.start).toList := by
  have hb : b ∈ (ofInstructions range l).blocks := by simp [hblocks]
  have hlast := Block.getLast?_append_instructions (before.flatMap Block.instructions) b
  have hl := flatMap_split hblocks
  rw [successors_eq hb]
  congr 1
  cases after with
  | nil =>
    rw [List.flatMap_nil, List.append_nil] at hl
    rw [hl] at hlast
    simp [h.stops _ hlast]
  | cons b' after =>
    have hchain := h.consecutive
    rw [← hl] at hchain
    have hnext : b'.start = (Block.last b.head b.tail).nextIp :=
      (List.isChain_append.1 hchain).2.2 _ hlast b'.head rfl
    have hb' : b' ∈ (ofInstructions range l).blocks := by simp [hblocks]
    have hinside : range.contains b'.start = true := h.inside b'.head (mem_listing hb' List.mem_cons_self)
    rw [hnext] at hinside
    simp [hnext, hinside]

end Ascending

/-! ## The block at an address -/

theorem existsUnique_block (h : IsListing range l) (hi : i ∈ l) :
    ∃! b, b ∈ (ofInstructions range l).blocks ∧ i ∈ b.instructions := by
  obtain ⟨b, hb, hib⟩ := exists_block range hi
  exact ⟨b, ⟨hb, hib⟩, fun b' ⟨hb', hib'⟩ => (eq_of_ip_eq h hb' hb hib' hib rfl).1⟩

/-- The start of the last block that starts at or before an address, if this block holds an instruction there. -/
def lookUp? (blocks : Std.TreeMap UInt64 Block) (a : UInt64) : Option UInt64 :=
  ((blocks.toList.filter (·.1 ≤ a)).getLast?.filter (·.2.instructions.any (·.ip == a))).map (·.1)

section Ascending

variable (h : IsAscending range l)
include h

theorem blockAt?_eq_some_iff_holds :
    (ofInstructions range l).blockAt? a = some b ↔
      b ∈ (ofInstructions range l).blocks ∧ ∃ i ∈ b.instructions, i.ip = a := by
  rw [blockAt?_of_ascending h.isSpread h.ascending, holder?_eq_some_iff h.toIsListing]

theorem blockAt?_eq_none_iff : (ofInstructions range l).blockAt? a = none ↔ ∀ i ∈ l, i.ip ≠ a := by
  rw [← not_iff_not, ← ne_eq, Option.ne_none_iff_exists']
  simp only [blockAt?_eq_some_iff_holds h, not_forall, not_not]
  constructor
  · rintro ⟨b, hb, i, hi, hip⟩
    exact ⟨i, mem_listing hb hi, hip⟩
  · rintro ⟨i, hi, hip⟩
    obtain ⟨b, hb, hib⟩ := exists_block range hi
    exact ⟨b, hb, i, hib, hip⟩

/-- **The lookup by keys** is the lookup in the list of the blocks. -/
theorem lookUp?_inOnePass (a : UInt64) :
    lookUp? (inOnePass range l) a = ((ofInstructions range l).blockAt? a).map Block.start := by
  rw [lookUp?, toList_inOnePass h, List.filter_map, List.getLast?_map, Option.filter_map, Option.map_map, blockAt?,
    byStart_eq (pairwise_blocks_start h.ascending)]
  rfl

end Ascending

/-! ## Basic blocks -/

/-- What the basic blocks `f` of the instructions `l` of a range are to be. -/
structure AreBasicBlocks (f : ControlFlow) (range : CodeRange) (l : List Instruction) : Prop where
  /-- One pass makes these blocks and keeps them by their starts. -/
  onePass : (inOnePass range l).toList = f.blocks.map Block.keyed
  ascending : f.blocks.Pairwise fun b b' => b.start < b'.start
  covers : f.blocks.flatMap Block.instructions = l
  first : ∀ b ∈ f.blocks, b.instructions.head?.map (·.ip) = some b.start
  /-- Only the last instruction of a block can pass control on. -/
  inner : ∀ b ∈ f.blocks, ∀ i ∈ b.instructions.dropLast, i.successors? range = none
  /-- Where a branch leads to an instruction, a block starts. -/
  targets : ∀ i ∈ l, ∀ j ∈ l, i.BranchesTo j.ip → ∃ b ∈ f.blocks, b.start = j.ip
  /-- A block other than the first one starts where a branch leads, or behind an instruction that ends a block. -/
  starts : ∀ b ∈ f.blocks.tail,
    ∃ i ∈ l, i.BranchesTo b.start ∨ [i, b.head] <:+: l ∧ (i.successors? range).isSome = true
  /-- A block leads where its last instruction does, or to the next block if there is one. -/
  successors : ∀ before b after, f.blocks = before ++ b :: after →
    b.successors = ((Block.last b.head b.tail).successors? range).getD (after.head?.map Block.start).toList
  unique : ∀ i ∈ l, ∃! b, b ∈ f.blocks ∧ i ∈ b.instructions
  found : ∀ a b, f.blockAt? a = some b ↔ b ∈ f.blocks ∧ ∃ i ∈ b.instructions, i.ip = a
  missing : ∀ a, f.blockAt? a = none ↔ ∀ i ∈ l, i.ip ≠ a
  lookUp : ∀ a, lookUp? (inOnePass range l) a = (f.blockAt? a).map Block.start

/--
**The blocks of some code** that does not pass the end of the address space are
the basic blocks of the instructions of its sweep, and the block at an address
is the only one that holds an instruction there.
-/
theorem build_areBasicBlocks (mode : Bitness) (code : List UInt8) (entry : UInt64)
    (h : entry.toNat + code.length < UInt64.size) :
    AreBasicBlocks (build mode code entry) (.of entry code) (Encoding.sweep mode entry code) := by
  have hl := Encoding.isAscending_sweep mode h
  exact
    { onePass := toList_inOnePass hl
      ascending := pairwise_blocks_start hl.ascending
      covers := instructions_ofInstructions _ _
      first := fun b _ => rfl
      inner := fun b hb i hi => successors?_of_mem_dropLast hb hi
      targets := fun i hi j hj hbranch =>
        (exists_start_of_branchesTo hl hi hj hbranch).imp fun b ⟨hb, hhead⟩ => ⟨hb, congrArg Instruction.ip hhead⟩
      starts := fun b hb => starts_of_tail hl hb
      successors := fun before b after hblocks => successors_eq_next hl hblocks
      unique := fun i hi => existsUnique_block hl.toIsListing hi
      found := fun a b => blockAt?_eq_some_iff_holds hl
      missing := fun a => blockAt?_eq_none_iff hl
      lookUp := lookUp?_inOnePass hl }

/--
A conditional branch, a jump into the middle of an instruction, one out of the
code, an invalid instruction, a branch back that splits a block, and a tail.
-/
def unevenCode : List UInt8 :=
  [0x74, 0x06, 0xb8, 1, 0, 0, 0, 0x90, 0xeb, 0xfa, 0xeb, 0x7f, 0x06, 0xc0, 0x75, 0xf7, 0x90, 0x90]

/-- Each of these instructions is in one of the eight blocks, and each block leads where it should. -/
theorem build_areBasicBlocks_uneven :
    (build .x64 unevenCode 0x10000).blocks.map (fun b => (b.start, b.instructions.length, b.successors)) =
      [(0x10000, 1, [0x10008, 0x10002]), (0x10002, 1, [0x10007]), (0x10007, 1, [0x10008]),
        (0x10008, 1, [0x10004]), (0x1000a, 1, []), (0x1000c, 1, []), (0x1000e, 1, [0x10007, 0x10010]),
        (0x10010, 2, [])] ∧
    AreBasicBlocks (build .x64 unevenCode 0x10000) (.of 0x10000 unevenCode)
      (Encoding.sweep .x64 0x10000 unevenCode) := by
  refine ⟨?_, build_areBasicBlocks .x64 unevenCode 0x10000 (by decide)⟩
  rw [build_eq_listed]
  decide +kernel

end ControlFlow

end KernelOffsets

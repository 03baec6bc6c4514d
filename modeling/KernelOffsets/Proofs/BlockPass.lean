/-
The blocks in one pass over the instructions. The pass puts one instruction
after the other into an open block, and closes that block where another one
has to start and behind an instruction that ends it; closed blocks are kept by
their start addresses. After each step the closed blocks and the open one are
the runs of the instructions that were taken (`ControlFlow.Pass.Holds.step`),
so the pass makes the blocks of the whole list (`ControlFlow.toList_inOnePass`).
-/
import KernelOffsets.Proofs.StartOrder
import Std.Data.TreeMap

namespace KernelOffsets

/-! ## Code in ascending order -/

/-- A listing in the order of its addresses, which fills its range up to the end. -/
structure IsAscending (range : CodeRange) (l : List Instruction) : Prop extends IsListing range l where
  ascending : l.Pairwise fun i j => i.ip < j.ip
  inside : ∀ i ∈ l, range.contains i.ip = true
  stops : ∀ i ∈ l.getLast?, range.contains i.nextIp = false

theorem Encoding.isAscending_sweep (mode : Bitness) {entry : UInt64} {code : List UInt8}
    (h : entry.toNat + code.length < UInt64.size) : IsAscending (.of entry code) (sweep mode entry code) := by
  refine ⟨isListing_sweep mode entry (by omega), ascending_sweep mode (Nat.le_of_lt h), inside_sweep mode h, ?_⟩
  intro i hi
  rw [nextIp_of_getLast?_sweep mode entry code i hi]
  simp [CodeRange.contains, CodeRange.of]

/-! ## The pass -/

/-- A block by its start address. -/
def Block.keyed (b : Block) : UInt64 × Block := (b.start, b)

namespace ControlFlow

/-- The blocks that are closed, by their start addresses, and the one that is open, which leads nowhere yet. -/
structure Pass where
  closed : Std.TreeMap UInt64 Block
  opened : Option Block

namespace Pass

variable {starts : Std.HashSet UInt64} {p : Pass} {b : Block} {i : Instruction}

/-- No instruction is taken yet. -/
def empty : Pass := ⟨∅, none⟩

/--
Puts an instruction into the open block; where a block has to start, the open
one is closed, leads there, and a new one is opened. The closed blocks after
that, and the open one.
-/
def enter (starts : Std.HashSet UInt64) (p : Pass) (i : Instruction) : Std.TreeMap UInt64 Block × Block :=
  match p.opened with
  | none => (p.closed, ⟨i, [], []⟩)
  | some b =>
    if starts.contains i.ip then (p.closed.insert b.start { b with successors := [i.ip] }, ⟨i, [], []⟩)
    else (p.closed, { b with tail := b.tail ++ [i] })

theorem enter_of_none (h : p.opened = none) : p.enter starts i = (p.closed, ⟨i, [], []⟩) := by
  rw [enter, h]

theorem enter_of_contains (h : p.opened = some b) (hlead : starts.contains i.ip = true) :
    p.enter starts i = (p.closed.insert b.start { b with successors := [i.ip] }, ⟨i, [], []⟩) := by
  rw [enter, h]
  exact if_pos hlead

theorem enter_of_not_contains (h : p.opened = some b) (hlead : starts.contains i.ip = false) :
    p.enter starts i = (p.closed, { b with tail := b.tail ++ [i] }) := by
  rw [enter, h]
  exact if_neg (ne_true_of_eq_false hlead)

/-- Takes an instruction, and closes its block if it ends one. -/
def step (range : CodeRange) (starts : Std.HashSet UInt64) (p : Pass) (i : Instruction) : Pass :=
  let (closed, block) := p.enter starts i
  match i.successors? range with
  | some successors => ⟨closed.insert block.start { block with successors }, none⟩
  | none => ⟨closed, some block⟩

/-- Closes the open block where the instructions end. -/
def finish (p : Pass) : Std.TreeMap UInt64 Block :=
  match p.opened with
  | some b => p.closed.insert b.start b
  | none => p.closed

end Pass

/-- The blocks of instructions made in one pass over them, by their start addresses. -/
def inOnePass (range : CodeRange) (l : List Instruction) : Std.TreeMap UInt64 Block :=
  (l.foldl (Pass.step range (leaders range l)) .empty).finish

/-! ## Blocks in order -/

variable {range : CodeRange} {starts : Std.HashSet UInt64} {l seen : List Instruction} {done blocks : List Block}
  {b : Block} {i : Instruction}

/-- A block that starts behind all others stands behind them. -/
theorem toList_insert {closed : Std.TreeMap UInt64 Block} (h : closed.toList = done.map Block.keyed)
    (hlt : ∀ b' ∈ done, b'.start < b.start) : (closed.insert b.start b).toList = (done ++ [b]).map Block.keyed := by
  have hsorted : ∀ m : Std.TreeMap UInt64 Block, m.toList.Pairwise fun p q => p.1 < q.1 := fun m =>
    Std.TreeMap.ordered_keys_toList.imp Std.compare_eq_lt.1
  have hkeys : ∀ p ∈ closed.toList, p.1 < b.start := by
    rw [h]
    exact List.forall_mem_map.2 hlt
  have hbehind : (closed.toList ++ [b.keyed]).Pairwise fun p q => p.1 < q.1 := by
    refine List.pairwise_append.2 ⟨hsorted closed, List.pairwise_singleton _ _, fun p hp q hq => ?_⟩
    obtain rfl := List.mem_singleton.1 hq
    exact hkeys p hp
  have hperm : (closed.insert b.start b).toList.Perm (closed.toList ++ [b.keyed]) := by
    refine Std.TreeMap.toList_insert_perm.trans ?_
    rw [List.filter_eq_self.2 fun p hp => by simpa using (UInt64.ne_of_lt (hkeys p hp)).symm]
    exact (List.perm_append_singleton _ _).symm
  rw [List.map_append, ← h]
  exact hperm.eq_of_pairwise (fun p q _ _ hpq hqp => absurd hqp (UInt64.lt_asymm hpq)) (hsorted _) hbehind

theorem filterMap_ofRun (h : ∀ b ∈ blocks, Block.ofRun range b.instructions = some b) :
    (blocks.map Block.instructions).filterMap (Block.ofRun range) = blocks := by
  induction blocks with
  | nil => rfl
  | cons b blocks ih =>
    rw [List.map_cons, List.filterMap_cons_some (h b List.mem_cons_self),
      ih fun b' hb' => h b' (List.mem_cons_of_mem b hb')]

theorem splitBy_concat {r : Instruction → Instruction → Bool} {runs : List (List Instruction)}
    (h : seen.splitBy r = runs ++ [b.instructions]) (hr : r (Block.last b.head b.tail) i = true) :
    (seen ++ [i]).splitBy r = runs ++ [b.instructions ++ [i]] := by
  obtain ⟨hseen, hnil, hchains, hends⟩ := List.splitBy_eq_iff.1 h
  obtain ⟨hends, -, hjoin⟩ := List.isChain_append.1 hends
  refine List.splitBy_eq_iff.2 ⟨?_, ?_, ?_, ?_⟩
  · simp [hseen]
  · simp_all
  · intro run hrun
    rcases List.mem_append.1 hrun with hrun | hrun
    · exact hchains run (List.mem_append_left _ hrun)
    · obtain rfl := List.mem_singleton.1 hrun
      refine List.isChain_append.2 ⟨hchains _ (by simp), List.isChain_singleton _, fun x hx y hy => ?_⟩
      cases hy
      rw [Block.instructions, List.getLast?_eq_some_getLast (List.cons_ne_nil _ _)] at hx
      cases hx
      exact hr
  · refine List.isChain_append.2 ⟨hends, List.isChain_singleton _, fun run hrun run' hrun' => ?_⟩
    cases hrun'
    obtain ⟨hne, _, hfalse⟩ := hjoin run hrun _ rfl
    exact ⟨hne, by simp, by simpa [Block.instructions] using hfalse⟩

namespace Pass

variable {p : Pass}

/--
What a pass has made of the instructions `seen`: the blocks `done`, which are
closed, and the open one are the runs of `seen`, one behind the other.
-/
structure Holds (range : CodeRange) (starts : Std.HashSet UInt64) (seen : List Instruction) (done : List Block)
    (p : Pass) : Prop where
  closed : p.closed.toList = done.map Block.keyed
  made : ∀ b ∈ done, Block.ofRun range b.instructions = some b
  opened : ∀ b ∈ p.opened, b.successors = []
  runs : (done ++ p.opened.toList).map Block.instructions = seen.splitBy (continues range starts)

/-- Between two steps a block is open exactly if the last instruction does not end one. -/
def IsReady (range : CodeRange) (seen : List Instruction) (p : Pass) : Prop :=
  ∀ i ∈ seen.getLast?, p.opened.isSome = (i.successors? range).isNone

theorem holds_empty : Holds range starts [] [] empty :=
  ⟨rfl, by simp, by simp [empty], by simp [empty]⟩

namespace Holds

theorem flatMap_eq (h : Holds range starts seen done p) :
    (done ++ p.opened.toList).flatMap Block.instructions = seen := by
  rw [List.flatMap_def, h.runs, List.flatten_splitBy]

theorem getLast? (h : Holds range starts seen done p) (hb : p.opened = some b) :
    seen.getLast? = some (Block.last b.head b.tail) := by
  rw [← h.flatMap_eq, hb, Option.toList_some, List.flatMap_append, List.flatMap_singleton]
  exact Block.getLast?_append_instructions _ b

theorem successors?_eq_none (h : Holds range starts seen done p) (hready : IsReady range seen p)
    (hb : p.opened = some b) : (Block.last b.head b.tail).successors? range = none := by
  have hisNone := hready _ (h.getLast? hb)
  rw [hb] at hisNone
  exact Option.isNone_iff_eq_none.1 hisNone.symm

section Listing

variable (hl : IsAscending range l)
include hl

theorem start_lt (h : Holds range starts seen done p) (hseen : seen <+: l) (hb : p.opened = some b) :
    ∀ b' ∈ done, b'.start < b.start := by
  have hascending := hl.ascending.sublist hseen.sublist
  rw [← h.flatMap_eq, hb] at hascending
  intro b' hb'
  exact (List.pairwise_append.1 (pairwise_start hascending)).2.2 b' hb' b (by simp)

/-- Closing the open block as its run demands. -/
theorem close (h : Holds range starts seen done p) (hseen : seen <+: l) (hb : p.opened = some b)
    {successors : List UInt64}
    (hmade : Block.ofRun range b.instructions = some { b with successors }) :
    Holds range starts seen (done ++ [{ b with successors }])
      ⟨p.closed.insert b.start { b with successors }, none⟩ := by
  have hlt := h.start_lt hl hseen hb
  refine ⟨?_, ?_, ?_, ?_⟩
  · exact toList_insert (b := { b with successors }) h.closed hlt
  · intro b' hb'
    rcases List.mem_append.1 hb' with hb' | hb'
    · exact h.made b' hb'
    · obtain rfl := List.mem_singleton.1 hb'
      exact hmade
  · simp
  · rw [← h.runs, hb]
    simp [Block.instructions]

/-- A block that is closed where another one has to start is made as its run demands: it goes on to the next address. -/
theorem ofRun_of_next (h : Holds range starts seen done p) (hready : IsReady range seen p)
    (hseen : seen ++ [i] <+: l) (hb : p.opened = some b) :
    Block.ofRun range b.instructions = some { b with successors := [i.ip] } := by
  have hnone := h.successors?_eq_none hready hb
  have hchain := List.IsChain.prefix hl.consecutive hseen
  have hnext : i.ip = (Block.last b.head b.tail).nextIp :=
    (List.isChain_append.1 hchain).2.2 _ (h.getLast? hb) i rfl
  have hinside := hl.inside i (hseen.subset (by simp))
  rw [hnext] at hinside ⊢
  simp [Block.instructions, Block.ofRun, hnone, hinside]

theorem enter (h : Holds range starts seen done p) (hready : IsReady range seen p) (hseen : seen ++ [i] <+: l) :
    ∃ done', Holds range starts (seen ++ [i]) done' ⟨(p.enter starts i).1, some (p.enter starts i).2⟩ := by
  have hprefix : seen <+: l := (List.prefix_append _ _).trans hseen
  -- A new block is opened where the run of the last instruction ends.
  have hnew : ∀ {done'} {closed : Std.TreeMap UInt64 Block}, Holds range starts seen done' ⟨closed, none⟩ →
      (∀ x ∈ seen.getLast?, continues range starts x i = false) →
      Holds range starts (seen ++ [i]) done' ⟨closed, some ⟨i, [], []⟩⟩ := by
    intro done' closed h' hends
    refine ⟨h'.closed, h'.made, by simp, ?_⟩
    have hruns := h'.runs
    rw [Option.toList_none, List.append_nil] at hruns
    rw [Option.toList_some, List.map_append, hruns, List.splitBy_append_cons [] hends]
    rfl
  cases hb : p.opened with
  | none =>
    have hsame : p = ⟨p.closed, none⟩ := by rw [← hb]
    refine ⟨done, ?_⟩
    rw [enter_of_none hb]
    refine hnew (hsame ▸ h) fun x hx => ?_
    have hx := hready x hx
    rw [hb] at hx
    rw [continues, ← hx]
    rfl
  | some b =>
    cases hlead : starts.contains i.ip with
    | true =>
      refine ⟨done ++ [{ b with successors := [i.ip] }], ?_⟩
      rw [enter_of_contains hb hlead]
      refine hnew (h.close hl hprefix hb (h.ofRun_of_next hl hready hseen hb)) fun x _ => ?_
      rw [continues, hlead, Bool.not_true, Bool.and_false]
    | false =>
      refine ⟨done, ?_⟩
      rw [enter_of_not_contains hb hlead]
      have hcontinues : continues range starts (Block.last b.head b.tail) i = true := by
        rw [continues, h.successors?_eq_none hready hb, hlead]
        rfl
      have hruns := h.runs
      rw [hb, Option.toList_some, List.map_append] at hruns
      refine ⟨h.closed, h.made, ?_, ?_⟩
      · intro b' hb'
        cases hb'
        exact h.opened b hb
      · rw [splitBy_concat hruns.symm hcontinues]
        simp [Block.instructions]

/-- **A step takes one instruction into the runs.** -/
theorem step (h : Holds range starts seen done p) (hready : IsReady range seen p) (hseen : seen ++ [i] <+: l) :
    ∃ done', Holds range starts (seen ++ [i]) done' (p.step range starts i) ∧
      IsReady range (seen ++ [i]) (p.step range starts i) := by
  obtain ⟨done', h'⟩ := h.enter hl hready hseen
  have hlast : i = Block.last (p.enter starts i).2.head (p.enter starts i).2.tail := by
    have hlast := h'.getLast? rfl
    rw [List.getLast?_concat] at hlast
    exact Option.some.inj hlast
  have hi : (seen ++ [i]).getLast? = some i := List.getLast?_concat
  cases hs : i.successors? range with
  | some successors =>
    have hstep : p.step range starts i = ⟨(p.enter starts i).1.insert (p.enter starts i).2.start
        { (p.enter starts i).2 with successors }, none⟩ := by
      rw [Pass.step, hs]
    have hmade : Block.ofRun range (p.enter starts i).2.instructions =
        some { (p.enter starts i).2 with successors } := by
      rw [Block.instructions, Block.ofRun, ← hlast, hs]
      rfl
    refine ⟨_, hstep ▸ h'.close hl hseen rfl hmade, ?_⟩
    rw [hstep, IsReady, hi]
    rintro _ ⟨⟩
    rw [hs]
    rfl
  | none =>
    have hstep : p.step range starts i = ⟨(p.enter starts i).1, some (p.enter starts i).2⟩ := by
      rw [Pass.step, hs]
    refine ⟨done', hstep ▸ h', ?_⟩
    rw [hstep, IsReady, hi]
    rintro _ ⟨⟩
    rw [hs]
    rfl

theorem run (starts : Std.HashSet UInt64) (hseen : seen <+: l) :
    ∃ done, Holds range starts seen done (seen.foldl (Pass.step range starts) .empty) ∧
      IsReady range seen (seen.foldl (Pass.step range starts) .empty) := by
  induction seen using List.reverseRecOn with
  | nil => exact ⟨[], holds_empty, by simp [IsReady]⟩
  | append_singleton seen i ih =>
    obtain ⟨done, h, hready⟩ := ih ((List.prefix_append _ _).trans hseen)
    rw [List.foldl_concat]
    exact h.step hl hready hseen

/-- At the end the open block leads nowhere, as its run demands. -/
theorem finish (h : Holds range starts l done p) (hready : IsReady range l p) :
    ∃ blocks, p.finish.toList = blocks.map Block.keyed ∧
      (l.splitBy (continues range starts)).filterMap (Block.ofRun range) = blocks := by
  cases hb : p.opened with
  | none =>
    refine ⟨done, ?_, ?_⟩
    · rw [Pass.finish, hb]
      exact h.closed
    · rw [← h.runs, hb, Option.toList_none, List.append_nil]
      exact filterMap_ofRun h.made
  | some b =>
    have hmade : Block.ofRun range b.instructions = some b := by
      have hnone := h.successors?_eq_none hready hb
      have hstops := hl.stops _ (h.getLast? hb)
      obtain ⟨head, tail, successors⟩ := b
      obtain rfl : successors = [] := h.opened _ hb
      simp only at hnone hstops
      simp [Block.instructions, Block.ofRun, hnone, hstops]
    have hclosed := h.close hl List.prefix_rfl hb hmade
    refine ⟨done ++ [b], ?_, ?_⟩
    · rw [Pass.finish, hb]
      exact hclosed.closed
    · rw [← hclosed.runs, Option.toList_none, List.append_nil]
      exact filterMap_ofRun hclosed.made

end Listing

end Holds

end Pass

/-- **One pass makes the blocks**, kept in the order of their addresses. -/
theorem toList_inOnePass (hl : IsAscending range l) :
    (inOnePass range l).toList = (ofInstructions range l).blocks.map Block.keyed := by
  obtain ⟨done, h, hready⟩ := Pass.Holds.run hl (leaders range l) List.prefix_rfl
  obtain ⟨blocks, htoList, hblocks⟩ := h.finish hl hready
  rw [inOnePass, htoList, ← hblocks]
  rfl

end ControlFlow

end KernelOffsets

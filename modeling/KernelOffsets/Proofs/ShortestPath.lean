/-
The path to an instruction. The search keeps for each block the way back to
the entry, block by block (`ControlFlow.walksBack_of_chain`). Put one behind
the other, the instructions of these blocks are a walk of control without a
repetition (`ControlFlow.isShortestPath`), and no way to the target goes
through fewer blocks (`ControlFlow.pathTo?_shortest`).
-/
import KernelOffsets.Proofs.Reachability

namespace KernelOffsets

/-- Instructions that are run one after the other from one address on, until another one is arrived at. -/
inductive Walk (range : CodeRange) : UInt64 → List Instruction → UInt64 → Prop where
  | nil (a : UInt64) : Walk range a [] a
  | cons {i : Instruction} {a target : UInt64} {path : List Instruction} (ha : a ∈ i.nexts range)
    (rest : Walk range a path target) : Walk range i.ip (i :: path) target

namespace Walk

variable {range : CodeRange} {a b c : UInt64} {p q : List Instruction} {i : Instruction}

theorem append (hp : Walk range a p b) (hq : Walk range b q c) : Walk range a (p ++ q) c := by
  induction hp with
  | nil => exact hq
  | cons ha _ ih => exact .cons ha (ih hq)

theorem ip_of_head? (h : Walk range a p b) : ∀ i ∈ p.head?, i.ip = a := by
  cases h with
  | nil => simp
  | cons ha rest =>
    intro i hi
    cases hi
    rfl

theorem eq_of_nil (h : Walk range a [] b) : a = b := by
  cases h
  rfl

/-- A walk that does not come by where it goes to is empty only if it is there from the start. -/
theorem eq_nil_iff (h : Walk range a p b) (havoids : ∀ i ∈ p, i.ip ≠ b) : p = [] ↔ b = a := by
  constructor
  · rintro rfl
    exact h.eq_of_nil.symm
  · intro hback
    cases h with
    | nil => rfl
    | cons ha rest => exact absurd hback.symm (havoids _ List.mem_cons_self)

theorem isInvalid_eq_false (h : Walk range a p b) : ∀ i ∈ p, i.isInvalid = false := by
  induction h with
  | nil => simp
  | cons ha rest ih =>
    rename_i i _ _ _
    intro j hj
    rcases List.mem_cons.1 hj with rfl | hj
    · by_contra hinvalid
      rw [Instruction.nexts_of_isInvalid (eq_true_of_ne_false hinvalid)] at ha
      cases ha
    · exact ih j hj

theorem of_isChain : ∀ {p : List Instruction} {i : Instruction} (_ : (i :: p).IsChain fun x y => y.ip ∈ x.nexts range),
    b ∈ ((i :: p).getLast (List.cons_ne_nil i p)).nexts range → Walk range i.ip (i :: p) b
  | [], _, _, hlast => .cons hlast (.nil b)
  | j :: p, i, hchain, hlast => by
    obtain ⟨hstep, hrest⟩ := List.isChain_cons_cons.1 hchain
    exact .cons hstep (of_isChain hrest hlast)

end Walk

namespace ControlFlow

/-! ## The way back -/

/-- The block from which the search entered a block. -/
def parent? (f : ControlFlow) (a : UInt64) : Option UInt64 :=
  f.search.chains[a]?.bind (·[1]?)

/-- The blocks from one back to the entry, each followed by its parent, none of them twice. -/
structure WalksBack (f : ControlFlow) (a : UInt64) (chain : List UInt64) : Prop where
  first : chain.head? = some a
  parents : chain.IsChain fun b p => f.parent? b = some p
  last : chain.getLast? = some f.entry
  stops : f.parent? f.entry = none
  distinct : chain.Nodup

/-- **The way back over the parents ends at the entry**, and is the chain that was kept. -/
theorem walksBack_of_chain {f : ControlFlow} {a : UInt64} {chain : List UInt64}
    (h : f.search.chains[a]? = some chain) : f.WalksBack a chain := by
  obtain ⟨-, htree⟩ := isTree_search h
  refine ⟨htree.head?_eq h, ?_, (htree.walk_back h).1, ?_, htree.nodup h⟩
  · induction chain generalizing a with
    | nil => exact List.isChain_nil
    | cons b chain ih =>
      rcases htree.cases h with ⟨-, hone⟩ | ⟨p, rest, hchain, hp, -⟩
      · cases hone
        exact List.isChain_singleton _
      · cases hchain
        refine List.isChain_cons_cons.2 ⟨?_, ih hp⟩
        rw [parent?, h]
        rfl
  · rw [parent?, htree.root]
    rfl

/-! ## The instructions on the way -/

/-- The instructions of blocks, one block behind the other. -/
def instructionsAlong (f : ControlFlow) (route : List UInt64) : List Instruction :=
  route.flatMap fun start =>
    match f.index[start]? with
    | some block => block.instructions
    | none => []

theorem pathTo?_eq_some_iff {f : ControlFlow} {target : UInt64} {p : Path} :
    f.pathTo? target = some p ↔ ∃ goal chain, f.blockAt? target = some goal ∧
      f.search.chains[goal.start]? = some chain ∧
        p = ⟨chain.reverse, (f.instructionsAlong chain.reverse).takeWhile (·.ip != target)⟩ := by
  have hpath : f.pathTo? target = (f.blockAt? target).bind fun goal => (f.search.chains[goal.start]?).bind fun chain =>
      some ⟨chain.reverse, (f.instructionsAlong chain.reverse).takeWhile (·.ip != target)⟩ := rfl
  simp only [hpath, Option.bind_eq_some_iff, Option.some.injEq, eq_comm (b := p), exists_and_left]

variable {range : CodeRange} {l : List Instruction} {b goal : Block} {i : Instruction} {a target : UInt64}
  {chain rest route : List UInt64}

/-- Instructions of a list at different addresses are fewer than the list if one more follows them. -/
theorem length_lt_of_pairwise {p after : List Instruction}
    (hdistinct : (p ++ i :: after).Pairwise fun x y => x.ip ≠ y.ip) (hmem : p ++ i :: after ⊆ l) :
    p.length < l.length := by
  have hnodup : (p ++ i :: after).Nodup := hdistinct.imp fun hne heq => hne (congrArg _ heq)
  have hle := (hnodup.subperm hmem).length_le
  rw [List.length_append, List.length_cons] at hle
  omega

theorem instructionsAlong_append (f : ControlFlow) (route route' : List UInt64) :
    f.instructionsAlong (route ++ route') = f.instructionsAlong route ++ f.instructionsAlong route' :=
  List.flatMap_append

theorem instructionsAlong_singleton {f : ControlFlow} (h : f.index[a]? = some b) :
    f.instructionsAlong [a] = b.instructions := by
  simp [instructionsAlong, h]

section Listing

variable (h : IsListing range l)
include h

theorem mem_instructionsAlong (hi : i ∈ (ofInstructions range l).instructionsAlong route) :
    ∃ b ∈ (ofInstructions range l).blocks, b.start ∈ route ∧ i ∈ b.instructions := by
  obtain ⟨start, hstart, hmem⟩ := List.mem_flatMap.1 hi
  cases hblock : (ofInstructions range l).index[start]? with
  | none =>
    rw [hblock] at hmem
    cases hmem
  | some b =>
    rw [hblock] at hmem
    obtain ⟨hb, rfl⟩ := (getElem?_index h).1 hblock
    exact ⟨b, hb, hstart, hmem⟩

theorem pairwise_instructionsAlong (hroute : route.Nodup) :
    ((ofInstructions range l).instructionsAlong route).Pairwise fun i j => i.ip ≠ j.ip := by
  refine List.pairwise_flatMap.2 ⟨fun start _ => ?_, hroute.imp fun {a a'} hne x hx y hy heq => ?_⟩
  · cases hblock : (ofInstructions range l).index[start]? with
    | none => exact List.Pairwise.nil
    | some b =>
      obtain ⟨before, after, hl, -⟩ := exists_split ((getElem?_index h).1 hblock).1
      have hdistinct := h.distinct
      rw [hl] at hdistinct
      exact (List.pairwise_append.1 (List.pairwise_append.1 hdistinct).1).2.1
  · cases hblock : (ofInstructions range l).index[a]? with
    | none =>
      rw [hblock] at hx
      cases hx
    | some b =>
      cases hblock' : (ofInstructions range l).index[a']? with
      | none =>
        rw [hblock'] at hy
        cases hy
      | some b' =>
        rw [hblock] at hx
        rw [hblock'] at hy
        obtain ⟨hb, rfl⟩ := (getElem?_index h).1 hblock
        obtain ⟨hb', rfl⟩ := (getElem?_index h).1 hblock'
        exact hne (congrArg Block.start (eq_of_ip_eq h hb hb' hx hy heq).1)

theorem walk_block {before after : List Instruction} (hb : b ∈ (ofInstructions range l).blocks)
    (hsplit : b.instructions = before ++ i :: after) : Walk range b.start before i.ip := by
  have hchain := (isChain_nexts h hb).imp fun _ _ hstep => hstep.2
  rw [hsplit] at hchain
  obtain ⟨hbefore, -, hjoin⟩ := List.isChain_append.1 hchain
  cases before with
  | nil =>
    obtain ⟨rfl, -⟩ := List.cons.inj hsplit
    exact .nil _
  | cons j before =>
    obtain ⟨rfl, -⟩ := List.cons.inj hsplit
    exact .of_isChain hbefore (hjoin _ (List.getLast?_eq_some_getLast _) i rfl)

theorem walk_whole (hb : b ∈ (ofInstructions range l).blocks) (ha : a ∈ b.successors) :
    Walk range b.start b.instructions a :=
  .of_isChain ((isChain_nexts h hb).imp fun _ _ hstep => hstep.2) (mem_nexts_of_mem_successors hb ha)

theorem walk_chain (ha : (ofInstructions range l).search.chains[a]? = some (a :: rest)) :
    Walk range range.start ((ofInstructions range l).instructionsAlong rest.reverse) a := by
  obtain ⟨-, htree⟩ := isTree_search ha
  induction rest generalizing a with
  | nil =>
    rcases htree.cases ha with ⟨rfl, -⟩ | ⟨p, rest, hchain, -⟩
    · exact .nil _
    · cases hchain
  | cons p rest ih =>
    rcases htree.cases ha with ⟨-, hone⟩ | ⟨q, tail, hchain, hp, block, hblock, hleads, -⟩
    · cases hone
    · cases hchain
      obtain ⟨hb, hstart⟩ := (getElem?_index h).1 hblock
      rw [List.reverse_cons, instructionsAlong_append, instructionsAlong_singleton hblock]
      refine (ih hp).append ?_
      rw [← hstart]
      exact walk_whole h hb hleads

/-- **A path** is made of whole blocks up to the one of the target, and of what stands in that before the target. -/
theorem exists_of_pathTo? {p : Path} (hp : (ofInstructions range l).pathTo? target = some p) :
    ∃ goal rest before i after, goal ∈ (ofInstructions range l).blocks ∧
      (ofInstructions range l).search.chains[goal.start]? = some (goal.start :: rest) ∧
      goal.instructions = before ++ i :: after ∧ i.ip = target ∧
      p.blocks = rest.reverse ++ [goal.start] ∧
      p.instructions = (ofInstructions range l).instructionsAlong rest.reverse ++ before := by
  obtain ⟨goal, chain, hgoal, hchain, rfl⟩ := pathTo?_eq_some_iff.1 hp
  obtain ⟨hmem, -, i, hi, rfl⟩ := of_blockAt? hgoal
  obtain ⟨before, after, hsplit⟩ := List.append_of_mem hi
  obtain ⟨-, htree⟩ := isTree_search hchain
  have hhead := htree.head?_eq hchain
  cases chain with
  | nil => cases hhead
  | cons start rest =>
    cases hhead
    refine ⟨goal, rest, before, i, after, hmem, hchain, hsplit, rfl, List.reverse_cons, ?_⟩
    have hpairs := pairwise_instructionsAlong h (List.nodup_reverse.2 (htree.nodup hchain))
    have hindex := (getElem?_index h).2 ⟨hmem, rfl⟩
    rw [List.reverse_cons, instructionsAlong_append, instructionsAlong_singleton hindex, hsplit,
      ← List.append_assoc] at hpairs ⊢
    -- Only the target itself has its address.
    have hother := (List.pairwise_append.1 hpairs).2.2
    rw [List.takeWhile_append_of_pos fun j hj => bne_iff_ne.2 (hother j hj i List.mem_cons_self)]
    simp

end Listing

/-! ## The path that is found -/

/-- The start addresses of blocks on a way from the entry to the block of an instruction. -/
def IsRouteTo (f : ControlFlow) (route : List UInt64) (target : UInt64) : Prop :=
  ∃ goal ∈ f.blocks, (∃ i ∈ goal.instructions, i.ip = target) ∧ f.IsRoute route goal.start

/-- What a path to a target is to be, in the blocks `f` of the instructions `l` of a range. -/
structure IsShortestPath (f : ControlFlow) (range : CodeRange) (l : List Instruction) (target : UInt64)
    (p : Path) : Prop where
  empty_iff : p.instructions = [] ↔ target = range.start
  first : ∀ i ∈ p.instructions.head?, i.ip = range.start
  walk : Walk range range.start p.instructions target
  decoded : ∀ i ∈ p.instructions, i ∈ l
  simple : p.instructions.Pairwise fun i j => i.ip ≠ j.ip
  avoids : ∀ i ∈ p.instructions, i.ip ≠ target
  fewer : p.instructions.length < l.length
  along : p.instructions = (f.instructionsAlong p.blocks).takeWhile (·.ip != target)
  route : f.IsRouteTo p.blocks target
  shortest : ∀ route, f.IsRouteTo route target → p.blocks.length ≤ route.length

section Listing

variable (h : IsListing range l)
include h

theorem exists_chain_of_isRouteTo (hgoal : goal ∈ (ofInstructions range l).blocks) (hi : i ∈ goal.instructions)
    (hroute : (ofInstructions range l).IsRouteTo route i.ip) :
    ∃ chain, (ofInstructions range l).search.chains[goal.start]? = some chain ∧ chain.length ≤ route.length := by
  obtain ⟨goal', hgoal', ⟨j, hj, hip⟩, hroute⟩ := hroute
  obtain ⟨rfl, -⟩ := eq_of_ip_eq h hgoal hgoal' hi hj hip.symm
  exact exists_chain hroute

theorem isShortestPath {p : Path} (hp : (ofInstructions range l).pathTo? target = some p) :
    IsShortestPath (ofInstructions range l) range l target p := by
  obtain ⟨goal, rest, before, i, after, hgoal, hchain, hsplit, rfl, hblocks, hinstructions⟩ :=
    exists_of_pathTo? h hp
  obtain ⟨hroute⟩ : Nonempty ((ofInstructions range l).IsRoute p.blocks goal.start) := by
    rw [hblocks, ← List.reverse_cons]
    exact ⟨isRoute_of_chain hchain⟩
  have hi : i ∈ goal.instructions := by simp [hsplit]
  have hindex := (getElem?_index h).2 ⟨hgoal, rfl⟩
  have hwalk : Walk range range.start p.instructions i.ip := by
    rw [hinstructions]
    exact (walk_chain h hchain).append (walk_block h hgoal hsplit)
  have hwhole : (ofInstructions range l).instructionsAlong p.blocks = p.instructions ++ i :: after := by
    rw [hblocks, instructionsAlong_append, instructionsAlong_singleton hindex, hsplit, hinstructions,
      List.append_assoc]
  have hdistinct : (p.instructions ++ i :: after).Pairwise fun i j => i.ip ≠ j.ip := by
    obtain ⟨-, htree⟩ := isTree_search hchain
    rw [← hwhole, hblocks, ← List.reverse_cons]
    exact pairwise_instructionsAlong h (List.nodup_reverse.2 (htree.nodup hchain))
  have havoids : ∀ j ∈ p.instructions, j.ip ≠ i.ip := fun j hj =>
    (List.pairwise_append.1 hdistinct).2.2 j hj i List.mem_cons_self
  have hdecoded : p.instructions ++ i :: after ⊆ l := by
    intro j hj
    rw [← hwhole] at hj
    obtain ⟨b, hb, -, hjb⟩ := mem_instructionsAlong h hj
    exact mem_listing hb hjb
  refine ⟨hwalk.eq_nil_iff havoids, hwalk.ip_of_head?, hwalk, fun j hj => hdecoded (List.mem_append_left _ hj),
    (List.pairwise_append.1 hdistinct).1, havoids, length_lt_of_pairwise hdistinct hdecoded, ?_,
    ⟨goal, hgoal, ⟨i, hi, rfl⟩, hroute⟩, ?_⟩
  · rw [hwhole, List.takeWhile_append_of_pos fun j hj => bne_iff_ne.2 (havoids j hj)]
    simp
  · intro route hroute'
    obtain ⟨chain, hchain', hle⟩ := exists_chain_of_isRouteTo h hgoal hi hroute'
    rw [hchain] at hchain'
    cases hchain'
    rw [hblocks, ← List.reverse_cons, List.length_reverse]
    exact hle

end Listing

/-- There is no path exactly if there is no instruction at the target, or no route to its block. -/
theorem pathTo?_eq_none_iff (h : IsSpread range l) (hl : l.Pairwise fun i j => i.ip < j.ip) :
    (ofInstructions range l).pathTo? target = none ↔
      (∀ i ∈ l, i.ip ≠ target) ∨ ¬ ∃ route, (ofInstructions range l).IsRouteTo route target := by
  constructor
  · intro hnone
    by_contra hnot
    simp only [not_or, not_not] at hnot
    obtain ⟨-, route, hroute⟩ := hnot
    obtain ⟨goal, hgoal, ⟨i, hi, rfl⟩, -⟩ := id hroute
    have hat := (blockAt?_eq_some_iff h).2 ⟨hgoal, start_le hl hgoal hi, i, hi, rfl⟩
    obtain ⟨chain, hchain, -⟩ := exists_chain_of_isRouteTo h.toIsListing hgoal hi hroute
    have hsome := pathTo?_eq_some_iff.2 ⟨goal, chain, hat, hchain, rfl⟩
    rw [hnone] at hsome
    cases hsome
  · intro hor
    cases hp : (ofInstructions range l).pathTo? target with
    | none => rfl
    | some p =>
      obtain ⟨goal, hgoal, ⟨i, hi, hip⟩, hroute⟩ := (isShortestPath h.toIsListing hp).route
      rcases hor with hnowhere | hnoroute
      · exact absurd hip (hnowhere i (mem_listing hgoal hi))
      · exact absurd ⟨p.blocks, goal, hgoal, ⟨i, hi, hip⟩, hroute⟩ hnoroute

/--
**The path to an instruction** starts at the entry, follows control, repeats
nothing and goes through as few blocks as possible; there is one unless no
instruction stands at the target or no blocks lead to it. In all blocks,
wherever they come from, the way back from a block that was found ends at the
entry.
-/
theorem pathTo?_shortest (mode : Bitness) (code : List UInt8) (entry target : UInt64)
    (h : entry.toNat + code.length < UInt64.size) :
    (∀ p, (build mode code entry).pathTo? target = some p →
      IsShortestPath (build mode code entry) (.of entry code) (Encoding.sweep mode entry code) target p) ∧
    ((build mode code entry).pathTo? target = none ↔
      (∀ i ∈ Encoding.sweep mode entry code, i.ip ≠ target) ∨
        ¬ ∃ route, (build mode code entry).IsRouteTo route target) ∧
    ∀ (f : ControlFlow) (a : UInt64) (chain : List UInt64), f.search.chains[a]? = some chain →
      f.WalksBack a chain := by
  have hspread := Encoding.isSpread_sweep mode entry (show code.length ≤ UInt64.size by omega)
  have hascending := Encoding.ascending_sweep mode (Nat.le_of_lt h)
  exact ⟨fun p hp => isShortestPath hspread.toIsListing hp, pathTo?_eq_none_iff hspread hascending,
    fun f a chain => walksBack_of_chain⟩

/-- A loop back to the entry, a call behind it, and filler behind the return. -/
def callBehindLoop : List UInt8 :=
  [0x74, 0x05, 0xff, 0xc1, 0x90, 0xeb, 0xf9, 0x90, 0xe8, 0xf3, 0xff, 0, 0, 0xc3, 0xcc]

/-- The path to the call does not enter the loop, and no path leads to the filler. -/
theorem pathTo?_shortest_behindLoop :
    (∃ p, (build .x64 callBehindLoop 0x10000).pathTo? 0x10008 = some p ∧
      p.instructions.map (·.ip) = [0x10000, 0x10007] ∧
      IsShortestPath (build .x64 callBehindLoop 0x10000) (.of 0x10000 callBehindLoop)
        (Encoding.sweep .x64 0x10000 callBehindLoop) 0x10008 p) ∧
    ((∀ i ∈ Encoding.sweep .x64 0x10000 callBehindLoop, i.ip ≠ 0x1000e) ∨
      ¬ ∃ route, (build .x64 callBehindLoop 0x10000).IsRouteTo route 0x1000e) := by
  have hpath : ((build .x64 callBehindLoop 0x10000).pathTo? 0x10008).map (·.instructions.map (·.ip)) =
      some [0x10000, 0x10007] := by
    rw [pathTo?_build (by decide)]
    decide +kernel
  have hnone : (build .x64 callBehindLoop 0x10000).pathTo? 0x1000e = none := by
    rw [pathTo?_build (by decide)]
    decide +kernel
  obtain ⟨p, hp, hips⟩ := Option.map_eq_some_iff.1 hpath
  exact ⟨⟨p, hp, hips, (pathTo?_shortest .x64 callBehindLoop 0x10000 0x10008 (by decide)).1 p hp⟩,
    (pathTo?_shortest .x64 callBehindLoop 0x10000 0x1000e (by decide)).2.1.1 hnone⟩

end ControlFlow

end KernelOffsets

/-
The search for blocks is breadth first. It keeps a tree of chains, each of
which goes on from the chain of the block before it (`Search.IsTree`), and
after `k` rounds it knows every block at a distance of at most `k` steps
(`Search.AtDepth`). There are no more rounds than blocks, so in the end each
block that can be reached has a chain, and none is shorter
(`ControlFlow.exists_chain`).
-/
import KernelOffsets.ControlFlow.Search
import Mathlib.Data.List.Chain
import Mathlib.Data.List.Nodup
import Mathlib.Data.List.Perm.Subperm

namespace KernelOffsets.ControlFlow

theorem contains_iff {α : Type} {table : Std.HashMap UInt64 α} {a : UInt64} :
    table.contains a = true ↔ ∃ x, table[a]? = some x := by
  rw [Std.HashMap.contains_eq_isSome_getElem?, Option.isSome_iff_exists]

/-- Control can go from one block to another one; both are given by their start addresses. -/
def Leads (blocks : Std.HashMap UInt64 Block) (a b : UInt64) : Prop :=
  ∃ block, blocks[a]? = some block ∧ b ∈ block.successors ∧ blocks.contains b = true

/-- The start addresses of blocks on a way from the entry to a block. -/
structure IsRoute (f : ControlFlow) (route : List UInt64) (goal : UInt64) : Prop where
  known : f.index.contains f.entry = true
  first : route.head? = some f.entry
  last : route.getLast? = some goal
  steps : route.IsChain (Leads f.index)

namespace Search

variable {blocks : Std.HashMap UInt64 Block} {entry a b : UInt64} {chain rest : List UInt64} {s t : Search} {k : Nat}

/-! ## The tree of chains -/

/-- The entry has the chain of itself; every other chain goes on from the chain of a block that leads to its own. -/
structure IsTree (blocks : Std.HashMap UInt64 Block) (entry : UInt64) (s : Search) : Prop where
  root : s.chains[entry]? = some [entry]
  parent : ∀ {a : UInt64} {chain : List UInt64}, s.chains[a]? = some chain → a ≠ entry →
    ∃ p rest, chain = a :: p :: rest ∧ s.chains[p]? = some (p :: rest) ∧ Leads blocks p a

namespace IsTree

variable (h : IsTree blocks entry s)
include h

theorem cases (ha : s.chains[a]? = some chain) :
    (a = entry ∧ chain = [entry]) ∨
      ∃ p rest, chain = a :: p :: rest ∧ s.chains[p]? = some (p :: rest) ∧ Leads blocks p a := by
  by_cases hentry : a = entry
  · subst hentry
    exact .inl ⟨rfl, Option.some.inj (ha.symm.trans h.root)⟩
  · exact .inr (h.parent ha hentry)

theorem head?_eq (ha : s.chains[a]? = some chain) : chain.head? = some a := by
  rcases h.cases ha with ⟨rfl, rfl⟩ | ⟨p, rest, rfl, -, -⟩
  · rfl
  · rfl

theorem walk_back (ha : s.chains[a]? = some chain) :
    chain.getLast? = some entry ∧ chain.IsChain fun b p => Leads blocks p b := by
  induction chain generalizing a with
  | nil => cases h.head?_eq ha
  | cons b chain ih =>
    rcases h.cases ha with ⟨rfl, hone⟩ | ⟨p, rest, hchain, hp, hleads⟩
    · cases hone
      exact ⟨rfl, List.isChain_singleton _⟩
    · cases hchain
      obtain ⟨hlast, hrest⟩ := ih hp
      exact ⟨hlast, List.isChain_cons_cons.2 ⟨hleads, hrest⟩⟩

/-- From every block of a chain on, the chain is the one of that block. -/
theorem exists_suffix (ha : s.chains[a]? = some chain) (hb : b ∈ chain) :
    ∃ tail, s.chains[b]? = some tail ∧ tail <:+ chain := by
  induction chain generalizing a with
  | nil => cases hb
  | cons c chain ih =>
    rcases h.cases ha with ⟨rfl, hone⟩ | ⟨p, rest, hchain, hp, -⟩
    · cases hone
      obtain rfl := List.mem_singleton.1 hb
      exact ⟨_, ha, List.suffix_refl _⟩
    · cases hchain
      rcases List.mem_cons.1 hb with rfl | hb
      · exact ⟨_, ha, List.suffix_refl _⟩
      · obtain ⟨tail, htail, hsuffix⟩ := ih hp hb
        exact ⟨tail, htail, hsuffix.trans (List.suffix_cons _ _)⟩

/-- **No block is twice in a chain.** -/
theorem nodup (ha : s.chains[a]? = some chain) : chain.Nodup := by
  induction chain generalizing a with
  | nil => exact List.nodup_nil
  | cons b chain ih =>
    rcases h.cases ha with ⟨rfl, hone⟩ | ⟨p, rest, hchain, hp, -⟩
    · cases hone
      exact List.nodup_singleton _
    · cases hchain
      refine List.nodup_cons.2 ⟨fun hmem => ?_, ih hp⟩
      -- Its chain from there on would be the whole chain, which is longer.
      obtain ⟨tail, htail, hsuffix⟩ := h.exists_suffix hp hmem
      have hlength := hsuffix.length_le
      rw [← Option.some.inj (ha.symm.trans htail)] at hlength
      simp only [List.length_cons] at hlength
      omega

end IsTree

/-! ## Entering a block -/

theorem enter_of_new (chain : List UInt64) (hblock : blocks.contains a = true) (hnew : s.chains.contains a = false) :
    s.enter blocks chain a = { chains := s.chains.insert a (a :: chain), fresh := a :: s.fresh } := by
  simp [enter, hblock, hnew]

theorem enter_of_not (chain : List UInt64) (h : ¬ (blocks.contains a = true ∧ s.chains.contains a = false)) :
    s.enter blocks chain a = s := by
  unfold enter
  split
  · next hnew =>
    rw [Bool.and_eq_true, Bool.not_eq_true'] at hnew
    exact absurd hnew h
  · rfl

theorem getElem?_enter (h : s.chains[a]? = some chain) (c : List UInt64) (start : UInt64) :
    (s.enter blocks c start).chains[a]? = some chain := by
  by_cases hnew : blocks.contains start = true ∧ s.chains.contains start = false
  · have hne : start ≠ a := by
      rintro rfl
      rw [contains_iff.2 ⟨chain, h⟩] at hnew
      cases hnew.2
    rw [enter_of_new c hnew.1 hnew.2, Std.HashMap.getElem?_insert]
    simp [hne, h]
  · rw [enter_of_not c hnew]
    exact h

theorem exists_chain_enter (chain : List UInt64) (hblock : blocks.contains a = true) :
    ∃ c, (s.enter blocks chain a).chains[a]? = some c := by
  by_cases hnew : s.chains.contains a = false
  · rw [enter_of_new chain hblock hnew]
    exact ⟨_, Std.HashMap.getElem?_insert_self⟩
  · obtain ⟨c, hc⟩ := contains_iff.1 (eq_true_of_ne_false hnew)
    exact ⟨c, getElem?_enter hc chain a⟩

theorem getElem?_enterAll (c : List UInt64) :
    ∀ (targets : List UInt64) {s : Search}, s.chains[a]? = some chain →
      (targets.foldl (enter blocks c) s).chains[a]? = some chain
  | [], _, h => h
  | b :: targets, _, h => getElem?_enterAll c targets (getElem?_enter h c b)

theorem expand_eq {block : Block} (hblock : blocks[a]? = some block) (hchain : s.chains[a]? = some chain) :
    s.expand blocks a = block.successors.foldl (enter blocks chain) s := by
  simp [expand, hblock, hchain]

theorem getElem?_expand (h : s.chains[a]? = some chain) (start : UInt64) :
    (s.expand blocks start).chains[a]? = some chain := by
  unfold expand
  split
  · exact getElem?_enterAll _ _ h
  · exact h

theorem getElem?_expandAll :
    ∀ (starts : List UInt64) {s : Search}, s.chains[a]? = some chain →
      (starts.foldl (expand blocks) s).chains[a]? = some chain
  | [], _, h => h
  | start :: starts, _, h => getElem?_expandAll starts (getElem?_expand h start)

/-! ## Rounds -/

/-- All blocks at a distance of at most `k` steps are known, and the last ones are fresh. -/
structure AtDepth (blocks : Std.HashMap UInt64 Block) (k : Nat) (s : Search) : Prop where
  bound : ∀ {a : UInt64} {chain : List UInt64}, s.chains[a]? = some chain → chain.length ≤ k + 1
  fresh : ∀ {a : UInt64}, a ∈ s.fresh ↔ ∃ chain, s.chains[a]? = some chain ∧ chain.length = k + 1
  closed : ∀ {a b : UInt64} {chain : List UInt64}, s.chains[a]? = some chain → chain.length ≤ k → Leads blocks a b →
    ∃ c, s.chains[b]? = some c ∧ c.length ≤ chain.length + 1

/-- The search `t` comes from `s`, which has depth `k`, by entering blocks one step farther. -/
structure Grows (blocks : Std.HashMap UInt64 Block) (entry : UInt64) (k : Nat) (s t : Search) : Prop where
  tree : IsTree blocks entry t
  keeps : ∀ {a : UInt64} {chain : List UInt64}, s.chains[a]? = some chain → t.chains[a]? = some chain
  fresh : ∀ {a : UInt64}, a ∈ t.fresh ↔ ∃ chain, t.chains[a]? = some chain ∧ chain.length = k + 2
  known : ∀ {a : UInt64} {chain : List UInt64}, t.chains[a]? = some chain →
    s.chains[a]? = some chain ∨ chain.length = k + 2

namespace Grows

theorem start (htree : IsTree blocks entry s) (hdepth : AtDepth blocks k s) :
    Grows blocks entry k s { s with fresh := [] } := by
  refine ⟨⟨htree.root, htree.parent⟩, id, ?_, .inl⟩
  intro a
  constructor
  · intro hmem
    cases hmem
  · rintro ⟨chain, hchain, hlength⟩
    have hbound := hdepth.bound hchain
    omega

variable (h : Grows blocks entry k s t)
include h

theorem enter (hchain : t.chains[a]? = some (a :: rest)) (hlength : rest.length = k) {b : UInt64}
    (hleads : blocks.contains b = true → Leads blocks a b) :
    Grows blocks entry k s (t.enter blocks (a :: rest) b) := by
  by_cases hnew : blocks.contains b = true ∧ t.chains.contains b = false
  · have hnone : t.chains[b]? = none := by
      rw [← Option.isNone_iff_eq_none, ← Option.not_isSome, ← Std.HashMap.contains_eq_isSome_getElem?, hnew.2]
      rfl
    have hstays : ∀ {c : UInt64} {chain : List UInt64}, t.chains[c]? = some chain →
        (t.enter blocks (a :: rest) b).chains[c]? = some chain := fun hc => getElem?_enter hc _ _
    have hcases : ∀ {c : UInt64} {chain : List UInt64}, (t.enter blocks (a :: rest) b).chains[c]? = some chain →
        (c = b ∧ chain = b :: a :: rest) ∨ t.chains[c]? = some chain := by
      intro c chain hc
      rw [enter_of_new _ hnew.1 hnew.2, Std.HashMap.getElem?_insert] at hc
      split at hc
      · next heq => exact .inl ⟨(eq_of_beq heq).symm, (Option.some.inj hc).symm⟩
      · exact .inr hc
    have hfound : (t.enter blocks (a :: rest) b).chains[b]? = some (b :: a :: rest) := by
      rw [enter_of_new _ hnew.1 hnew.2, Std.HashMap.getElem?_insert_self]
    refine ⟨⟨hstays h.tree.root, ?_⟩, fun hc => hstays (h.keeps hc), ?_, ?_⟩
    · intro c chain hc hne
      rcases hcases hc with ⟨rfl, rfl⟩ | hold
      · exact ⟨a, rest, rfl, hstays hchain, hleads hnew.1⟩
      · obtain ⟨p, tail, heq, hp, hpc⟩ := h.tree.parent hold hne
        exact ⟨p, tail, heq, hstays hp, hpc⟩
    · intro c
      have hfresh : (t.enter blocks (a :: rest) b).fresh = b :: t.fresh := by rw [enter_of_new _ hnew.1 hnew.2]
      rw [hfresh, List.mem_cons, h.fresh]
      constructor
      · rintro (rfl | ⟨chain, hc, hk⟩)
        · exact ⟨_, hfound, by simp [hlength]⟩
        · exact ⟨chain, hstays hc, hk⟩
      · rintro ⟨chain, hc, hk⟩
        rcases hcases hc with ⟨rfl, -⟩ | hold
        · exact .inl rfl
        · exact .inr ⟨chain, hold, hk⟩
    · intro c chain hc
      rcases hcases hc with ⟨rfl, rfl⟩ | hold
      · exact .inr (by simp [hlength])
      · exact h.known hold
  · rw [enter_of_not _ hnew]
    exact h

theorem enterAll (hchain : t.chains[a]? = some (a :: rest)) (hlength : rest.length = k) :
    ∀ {targets : List UInt64}, (∀ b ∈ targets, blocks.contains b = true → Leads blocks a b) →
      Grows blocks entry k s (targets.foldl (Search.enter blocks (a :: rest)) t) ∧
        ∀ b ∈ targets, blocks.contains b = true →
          ∃ c, (targets.foldl (Search.enter blocks (a :: rest)) t).chains[b]? = some c := by
  intro targets
  induction targets generalizing t with
  | nil => exact fun _ => ⟨h, by simp⟩
  | cons b targets ih =>
    intro hleads
    have hgrows := h.enter hchain hlength (hleads b List.mem_cons_self)
    obtain ⟨hall, hfound⟩ := ih hgrows (getElem?_enter hchain _ b) fun c hc => hleads c (List.mem_cons_of_mem b hc)
    refine ⟨hall, fun c hc hblock => ?_⟩
    rcases List.mem_cons.1 hc with rfl | hc
    · obtain ⟨chain, hchain⟩ := exists_chain_enter (s := t) (a :: rest) hblock
      exact ⟨chain, getElem?_enterAll _ targets hchain⟩
    · exact hfound c hc hblock

/-- A fresh block enters all blocks that it leads to. -/
theorem expand (hdepth : AtDepth blocks k s) (ha : a ∈ s.fresh) :
    Grows blocks entry k s (t.expand blocks a) ∧
      ∀ b, Leads blocks a b → ∃ c, (t.expand blocks a).chains[b]? = some c := by
  obtain ⟨chain, hs, hlength⟩ := hdepth.fresh.1 ha
  have ht := h.keeps hs
  have hhead := h.tree.head?_eq ht
  cases chain with
  | nil => cases hhead
  | cons c rest =>
    cases hhead
    cases hblock : blocks[a]? with
    | none =>
      have hsame : t.expand blocks a = t := by simp [Search.expand, hblock]
      rw [hsame]
      refine ⟨h, ?_⟩
      rintro b ⟨block, hsome, -⟩
      rw [hblock] at hsome
      cases hsome
    | some block =>
      rw [expand_eq hblock ht]
      obtain ⟨hall, hfound⟩ := h.enterAll ht (Nat.succ.inj hlength) fun b hb hknown => ⟨block, hblock, hb, hknown⟩
      refine ⟨hall, ?_⟩
      rintro b ⟨block', hsome, hb, hknown⟩
      obtain rfl := Option.some.inj (hblock.symm.trans hsome)
      exact hfound b hb hknown

theorem expandAll (hdepth : AtDepth blocks k s) :
    ∀ {starts : List UInt64}, (∀ a ∈ starts, a ∈ s.fresh) →
      Grows blocks entry k s (starts.foldl (Search.expand blocks) t) ∧
        ∀ a ∈ starts, ∀ b, Leads blocks a b → ∃ c, (starts.foldl (Search.expand blocks) t).chains[b]? = some c := by
  intro starts
  induction starts generalizing t with
  | nil => exact fun _ => ⟨h, by simp⟩
  | cons a starts ih =>
    intro hstarts
    obtain ⟨hgrows, hfound⟩ := h.expand hdepth (hstarts a List.mem_cons_self)
    obtain ⟨hall, hrest⟩ := ih hgrows fun b hb => hstarts b (List.mem_cons_of_mem a hb)
    refine ⟨hall, fun b hb c hleads => ?_⟩
    rcases List.mem_cons.1 hb with rfl | hb
    · obtain ⟨chain, hchain⟩ := hfound c hleads
      exact ⟨chain, getElem?_expandAll starts hchain⟩
    · exact hrest b hb c hleads

end Grows

/-- **One round** goes one step farther. -/
theorem AtDepth.round (hdepth : AtDepth blocks k s) (htree : IsTree blocks entry s) :
    IsTree blocks entry (s.round blocks) ∧ AtDepth blocks (k + 1) (s.round blocks) := by
  have hstart := Grows.start htree hdepth
  have hfresh : ∀ a ∈ s.fresh.reverse, a ∈ s.fresh := fun a ha => List.mem_reverse.1 ha
  obtain ⟨hgrows, hfound⟩ := hstart.expandAll hdepth hfresh
  have hbound : ∀ {a : UInt64} {chain : List UInt64}, (s.round blocks).chains[a]? = some chain →
      chain.length ≤ k + 2 := by
    intro a chain hchain
    rcases hgrows.known hchain with hold | hnew
    · have := hdepth.bound hold
      omega
    · exact Nat.le_of_eq hnew
  refine ⟨hgrows.tree, hbound, hgrows.fresh, ?_⟩
  intro a b chain hchain hlength hleads
  rcases hgrows.known hchain with hold | hnew
  · by_cases hfresh : chain.length = k + 1
    · obtain ⟨c, hc⟩ := hfound a (List.mem_reverse.2 (hdepth.fresh.2 ⟨chain, hold, hfresh⟩)) b hleads
      have hc_length := hbound hc
      exact ⟨c, hc, by omega⟩
    · obtain ⟨c, hc, hle⟩ := hdepth.closed hold (by omega) hleads
      exact ⟨c, hgrows.keeps hc, hle⟩
  · omega

theorem rounds_of_fresh (h : s.fresh = []) (n : Nat) : rounds blocks n s = s := by
  cases n with
  | zero => rfl
  | succ n => simp [rounds, h]

theorem rounds_succ (h : s.fresh ≠ []) (n : Nat) : rounds blocks (n + 1) s = rounds blocks n (s.round blocks) := by
  simp [rounds, h]

/-- **A number of rounds** ends before they are all done only if nothing is fresh. -/
theorem AtDepth.rounds (hdepth : AtDepth blocks k s) (htree : IsTree blocks entry s) (n : Nat) :
    ∃ m, IsTree blocks entry (s.rounds blocks n) ∧ AtDepth blocks m (s.rounds blocks n) ∧
      ((s.rounds blocks n).fresh = [] ∨ m = k + n) := by
  induction n generalizing k s with
  | zero => exact ⟨k, htree, hdepth, .inr rfl⟩
  | succ n ih =>
    by_cases hfresh : s.fresh = []
    · rw [rounds_of_fresh hfresh]
      exact ⟨k, htree, hdepth, .inl hfresh⟩
    · obtain ⟨htree', hdepth'⟩ := hdepth.round htree
      rw [rounds_succ hfresh]
      obtain ⟨m, htree'', hdepth'', hend⟩ := ih hdepth' htree'
      exact ⟨m, htree'', hdepth'', hend.imp_right fun hm => by omega⟩

/-- The search that knows the entry alone. -/
theorem isTree_entry (hentry : blocks.contains entry = true) :
    IsTree blocks entry (empty.enter blocks [] entry) ∧ AtDepth blocks 0 (empty.enter blocks [] entry) := by
  have hstart : empty.enter blocks [] entry =
      ⟨(∅ : Std.HashMap UInt64 (List UInt64)).insert entry [entry], [entry]⟩ := by
    simp [enter, empty, hentry]
  have honly : ∀ {a : UInt64} {chain : List UInt64}, (empty.enter blocks [] entry).chains[a]? = some chain →
      a = entry ∧ chain = [entry] := by
    intro a chain ha
    rw [hstart, Std.HashMap.getElem?_insert] at ha
    split at ha
    · next heq => exact ⟨(eq_of_beq heq).symm, (Option.some.inj ha).symm⟩
    · simp at ha
  have hroot : (empty.enter blocks [] entry).chains[entry]? = some [entry] := by
    rw [hstart, Std.HashMap.getElem?_insert_self]
  refine ⟨⟨hroot, fun ha hne => absurd (honly ha).1 hne⟩, ?_, ?_, ?_⟩
  · intro a chain ha
    rw [(honly ha).2]
    exact Nat.le_refl _
  · intro a
    have hfresh : (empty.enter blocks [] entry).fresh = [entry] := by rw [hstart]
    rw [hfresh, List.mem_singleton]
    constructor
    · rintro rfl
      exact ⟨_, hroot, rfl⟩
    · rintro ⟨chain, ha, -⟩
      exact (honly ha).1
  · intro a b chain ha hlength
    rw [(honly ha).2] at hlength
    cases hlength

end Search

/-! ## The whole search -/

variable {f : ControlFlow} {a goal : UInt64} {chain route : List UInt64}

theorem mem_starts (h : f.index.contains a = true) : a ∈ f.blocks.map Block.start := by
  rw [index, Std.HashMap.contains_ofList, List.contains_iff_mem, List.map_map] at h
  exact h

theorem contains_of_leads (htree : Search.IsTree f.index f.entry f.search)
    (hentry : f.index.contains f.entry = true) (h : f.search.chains[a]? = some chain) : f.index.contains a = true := by
  rcases htree.cases h with ⟨rfl, -⟩ | ⟨p, rest, -, -, -, -, -, hknown⟩
  · exact hentry
  · exact hknown

theorem search_of_not_contains (h : f.index.contains f.entry = false) : f.search = Search.empty := by
  have hstart : Search.empty.enter f.index [] f.entry = Search.empty := by simp [Search.enter, h]
  show Search.rounds f.index f.blocks.length _ = _
  rw [hstart]
  exact Search.rounds_of_fresh rfl _

/-- **The search ends** with all chains in a tree, and with no block left to go on from. -/
theorem exists_depth (hentry : f.index.contains f.entry = true) :
    Search.IsTree f.index f.entry f.search ∧ ∃ k, Search.AtDepth f.index k f.search ∧ f.search.fresh = [] := by
  obtain ⟨hstart, hzero⟩ := Search.isTree_entry hentry
  obtain ⟨k, htree, hdepth, hend⟩ := hzero.rounds hstart f.blocks.length
  have htree : Search.IsTree f.index f.entry f.search := htree
  have hdepth : Search.AtDepth f.index k f.search := hdepth
  refine ⟨htree, k, hdepth, ?_⟩
  rcases hend with hend | hend
  · exact hend
  · -- A fresh block would have a chain of different blocks that is longer than the list of all blocks.
    rw [List.eq_nil_iff_forall_not_mem]
    intro a ha
    obtain ⟨chain, hchain, hlength⟩ := hdepth.fresh.1 ha
    have hsubset : chain ⊆ f.blocks.map Block.start := by
      intro b hb
      obtain ⟨tail, htail, -⟩ := htree.exists_suffix hchain hb
      exact mem_starts (contains_of_leads htree hentry htail)
    have hle := ((htree.nodup hchain).subperm hsubset).length_le
    rw [List.length_map] at hle
    omega

theorem isTree_search (h : f.search.chains[a]? = some chain) :
    f.index.contains f.entry = true ∧ Search.IsTree f.index f.entry f.search := by
  cases hentry : f.index.contains f.entry with
  | true => exact ⟨rfl, (exists_depth hentry).1⟩
  | false =>
    rw [search_of_not_contains hentry] at h
    simp [Search.empty] at h

/-- **A chain is a route**, read from its end. -/
theorem isRoute_of_chain (h : f.search.chains[a]? = some chain) : f.IsRoute chain.reverse a := by
  obtain ⟨hentry, htree⟩ := isTree_search h
  obtain ⟨hlast, hsteps⟩ := htree.walk_back h
  refine ⟨hentry, ?_, ?_, List.isChain_reverse.2 hsteps⟩
  · rw [List.head?_reverse, hlast]
  · rw [List.getLast?_reverse, htree.head?_eq h]

/-- **No route is shorter** than the chain of the block that it ends at. -/
theorem exists_chain (hroute : f.IsRoute route goal) :
    ∃ chain, f.search.chains[goal]? = some chain ∧ chain.length ≤ route.length := by
  obtain ⟨htree, k, hdepth, hfresh⟩ := exists_depth hroute.known
  have hclosed : ∀ {a b : UInt64} {chain : List UInt64}, f.search.chains[a]? = some chain → Leads f.index a b →
      ∃ c, f.search.chains[b]? = some c ∧ c.length ≤ chain.length + 1 := by
    intro a b chain hchain hleads
    refine hdepth.closed hchain ?_ hleads
    have hbound := hdepth.bound hchain
    have hne : chain.length ≠ k + 1 := by
      intro hlength
      have hmem := hdepth.fresh.2 ⟨chain, hchain, hlength⟩
      rw [hfresh] at hmem
      cases hmem
    omega
  have hback : ∀ (back : List UInt64) {goal : UInt64}, back.head? = some goal → back.getLast? = some f.entry →
      back.IsChain (fun b p => Leads f.index p b) →
      ∃ chain, f.search.chains[goal]? = some chain ∧ chain.length ≤ back.length := by
    intro back
    induction back with
    | nil => intro goal hhead; cases hhead
    | cons b back ih =>
      intro goal hhead hlast hsteps
      cases hhead
      cases back with
      | nil =>
        cases hlast
        exact ⟨_, htree.root, Nat.le_refl _⟩
      | cons p back =>
        obtain ⟨hleads, hrest⟩ := List.isChain_cons_cons.1 hsteps
        obtain ⟨chain, hchain, hle⟩ := ih rfl hlast hrest
        obtain ⟨c, hc, hlength⟩ := hclosed hchain hleads
        refine ⟨c, hc, ?_⟩
        simp only [List.length_cons] at hle ⊢
        omega
  have hfound := hback route.reverse (by rw [List.head?_reverse, hroute.last])
    (by rw [List.getLast?_reverse, hroute.first]) (List.isChain_reverse.2 hroute.steps)
  rwa [List.length_reverse] at hfound

theorem IsRoute.concat {b : UInt64} (hroute : f.IsRoute route a) (hleads : Leads f.index a b) :
    f.IsRoute (route ++ [b]) b := by
  have hne : route ≠ [] := by
    rintro rfl
    cases hroute.first
  refine ⟨hroute.known, ?_, List.getLast?_concat, ?_⟩
  · rw [List.head?_append_of_ne_nil _ hne, hroute.first]
  · refine hroute.steps.append (List.isChain_singleton b) ?_
    intro x hx y hy
    rw [hroute.last] at hx
    cases hx
    cases hy
    exact hleads

theorem exists_chain_of_leads {b : UInt64} (h : f.search.chains[a]? = some chain) (hleads : Leads f.index a b) :
    ∃ c, f.search.chains[b]? = some c := by
  obtain ⟨c, hc, -⟩ := exists_chain ((isRoute_of_chain h).concat hleads)
  exact ⟨c, hc⟩

end KernelOffsets.ControlFlow

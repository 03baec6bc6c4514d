/-
Registers that a run did not write. What an instruction writes is read off its
operands and its kind (`Instruction.WritesTo`), and these are the registers
that the machine marks (`Instruction.overwrites_iff`). A register without a mark
holds what it held at the entry, and a register with one was written by an
executed instruction (`Resolver.unwritten_untouched`).
-/
import KernelOffsets.Proofs.Divergences
import KernelOffsets.Proofs.RunPrefixes

namespace KernelOffsets

/-! ## What an instruction writes -/

namespace Instruction

variable {b : Bitness} {i : Instruction} {g : Gpr}

/-- The registers that an instruction writes in the machine, as a whole or in part. -/
inductive WritesTo (b : Bitness) (i : Instruction) (g : Gpr) : Prop
  /-- A rule writes its destination operands. -/
  | destination {k : Nat} {o : Operand} (rule : i.operation.destinations? = some k) (mem : o ∈ i.operands.take k)
      (names : o.names g = true)
  /-- A push and a pop move the stack pointer. -/
  | stack (rule : i.operation = .push ∨ i.operation = .pop) (pointer : g = .sp)
  /-- A skipped call may change the volatile registers. -/
  | call {r : Register} (unruled : i.operation.destinations? = none) (call : i.isCall = true) (mem : r ∈ b.volatile)
      (names : r.gpr? = some g)
  /-- Other instructions without a rule may change what they are said to change, branches apart. -/
  | unknown (unruled : i.operation.destinations? = none)
      (other : i.flow ∉ [.call, .indirectCall, .conditionalBranch, .unconditionalBranch, .indirectBranch])
      (changing : i.isChanging g = true)

theorem exists_of_names_first (h : i.first.names g = true) : ∃ o ∈ i.operands.take 1, o.names g = true := by
  unfold first at h
  cases ho : i.operands with
  | nil => simp [ho, Operand.missing, Operand.names, Register.gpr?] at h
  | cons o rest => exact ⟨o, by simp, by simpa [ho] using h⟩

theorem exists_of_names_second (h : i.second.names g = true) : ∃ o ∈ i.operands.take 2, o.names g = true := by
  unfold second at h
  rcases ho : i.operands with - | ⟨o, - | ⟨o', rest⟩⟩
  · simp [ho, Operand.missing, Operand.names, Register.gpr?] at h
  · simp [ho, Operand.missing, Operand.names, Register.gpr?] at h
  · exact ⟨o', by simp, by simpa [ho] using h⟩

theorem WritesTo.of_first (rule : i.operation.destinations? = some 1) (h : i.first.names g = true) :
    i.WritesTo b g := by
  obtain ⟨o, ho, hname⟩ := exists_of_names_first h
  exact .destination rule ho hname

theorem forgets_iff (h : i.operation.destinations? = none) : i.forgets b g = true ↔ i.WritesTo b g := by
  have hrule : ¬ (i.operation = .push ∨ i.operation = .pop) := by
    rintro (hop | hop) <;> simp [hop, Operation.destinations?] at h
  have hcases : i.WritesTo b g ↔ (i.isCall = true ∧ b.volatile.any (·.gpr? == some g) = true) ∨
      (i.flow ∉ [.call, .indirectCall, .conditionalBranch, .unconditionalBranch, .indirectBranch] ∧
        i.isChanging g = true) := by
    constructor
    · rintro (⟨rule, -, -⟩ | ⟨rule, -⟩ | ⟨-, call, mem, names⟩ | ⟨-, other, changing⟩)
      · rw [h] at rule
        cases rule
      · exact absurd rule hrule
      · exact .inl ⟨call, List.any_eq_true.2 ⟨_, mem, beq_iff_eq.2 names⟩⟩
      · exact .inr ⟨other, changing⟩
    · rintro (⟨call, hvolatile⟩ | ⟨other, changing⟩)
      · obtain ⟨r, mem, names⟩ := List.any_eq_true.1 hvolatile
        exact .call h call mem (beq_iff_eq.1 names)
      · exact .unknown h other changing
  rw [hcases]
  unfold forgets isCall
  cases i.flow <;> simp

/-- A register that a rule marks is a destination, or the stack pointer that is moved. -/
theorem writesTo_of_rule {k : Nat} (hk : i.operation.destinations? = some k) (h : i.overwrites b g = true) :
    i.IsFormed ∧ i.WritesTo b g := by
  have formed : i.operation ≠ .lea → i.IsFormed := fun hne heq => absurd heq hne
  unfold overwrites at h
  cases hop : i.operation with
  | invalid | unmodelled name => simp [hop, Operation.destinations?] at hk
  | nop | cmp | test | bt => simp [hop] at h
  | lea =>
    obtain ⟨hmemory, hfirst⟩ : Encoding.isMemory i.second = true ∧ i.first.names g = true := by simpa [hop] using h
    exact ⟨fun _ => hmemory, .of_first (by rw [hop]; rfl) hfirst⟩
  | push =>
    obtain rfl : g = .sp := by simpa [hop] using h
    exact ⟨formed (by simp [hop]), .stack (.inl hop) rfl⟩
  | pop =>
    refine ⟨formed (by simp [hop]), ?_⟩
    obtain hsp | hfirst : g = .sp ∨ i.first.names g = true := by simpa [hop] using h
    · exact .stack (.inr hop) hsp
    · exact .of_first (by rw [hop]; rfl) hfirst
  | xchg =>
    refine ⟨formed (by simp [hop]), ?_⟩
    have hrule : i.operation.destinations? = some 2 := by rw [hop]; rfl
    obtain hfirst | hsecond : i.first.names g = true ∨ i.second.names g = true := by simpa [hop] using h
    · obtain ⟨o, ho, hname⟩ := exists_of_names_first hfirst
      exact .destination hrule ((List.take_prefix_take_left (by decide)).subset ho) hname
    · obtain ⟨o, ho, hname⟩ := exists_of_names_second hsecond
      exact .destination hrule ho hname
  | _ =>
    rw [hop] at h
    exact ⟨formed (by simp [hop]), .of_first (by rw [hop]; rfl) h⟩

theorem overwrites_of_writesTo {k : Nat} (hk : i.operation.destinations? = some k) (formed : i.IsFormed)
    (h : i.WritesTo b g) : i.overwrites b g = true := by
  refine overwrites_of_destinations hk formed ?_
  cases h with
  | destination rule mem names =>
    obtain rfl := Option.some.inj (hk.symm.trans rule)
    exact .inl (List.any_eq_true.2 ⟨_, mem, names⟩)
  | stack rule pointer => exact .inr ⟨rule, pointer⟩
  | call unruled | unknown unruled =>
    rw [hk] at unruled
    cases unruled

/-- **The registers that the machine marks** are the ones that an instruction writes. -/
theorem overwrites_iff : i.overwrites b g = true ↔ i.IsFormed ∧ i.WritesTo b g := by
  cases hk : i.operation.destinations? with
  | some k => exact ⟨writesTo_of_rule hk, fun h => overwrites_of_writesTo hk h.1 h.2⟩
  | none =>
    have formed : i.IsFormed := fun hlea => by simp [hlea, Operation.destinations?] at hk
    rw [overwrites_eq_forgets hk, forgets_iff hk]
    exact (and_iff_right formed).symm

end Instruction

theorem Encoding.isFormed_decode (mode : Bitness) (ip : UInt64) (bytes : List UInt8) :
    (decode mode ip bytes).IsFormed := by
  obtain ⟨n, hnone⟩ | ⟨e, n, regular, hlegal, hsome⟩ := decode_eq mode ip bytes
  · intro hlea
    rw [hnone] at hlea
    cases hlea
  · rw [hsome]
    exact isFormed_instruction regular hlegal

/-! ## Runs -/

namespace Machine

variable {α : Type} {m : Machine}

theorem overwrites_replay (m : Machine) (hook : RegisterFile → RegisterFile) (budget : Nat) (path : List Instruction)
    (observe : Instruction → Machine → α) :
    (m.prepare hook).Overwrites ((m.prepare hook).replay observe budget path).machine
      fun g => (path.take (executed budget path)).any (·.overwrites (m.prepare hook).bitness g) := by
  rw [Machine.replay, (replayFrom_eq observe budget (m.prepare hook) #[] path).2.1]
  exact overwrites_steps _ _

theorem hasWritten_replay_iff (m : Machine) (hook : RegisterFile → RegisterFile) (budget : Nat)
    (path : List Instruction) (observe : Instruction → Machine → α) (g : Gpr) :
    ((m.prepare hook).replay observe budget path).machine.registers.hasWritten g = true ↔
      ∃ i ∈ path.take (executed budget path), i.IsFormed ∧ i.WritesTo (m.prepare hook).bitness g := by
  have hnone : (m.prepare hook).registers.hasWritten g = false := RegisterFile.hasWritten_clearWritten _ _
  rw [(overwrites_replay m hook budget path observe).written, hnone, Bool.or_false, List.any_eq_true]
  simp only [Instruction.overwrites_iff]

theorem value_replay (m : Machine) (hook : RegisterFile → RegisterFile) (budget : Nat)
    (path : List Instruction) (observe : Instruction → Machine → α) {g : Gpr}
    (h : ((m.prepare hook).replay observe budget path).machine.registers.hasWritten g = false) :
    ((m.prepare hook).replay observe budget path).machine.registers.value g = (hook m.registers).value g := by
  have hover := overwrites_replay m hook budget path observe
  rw [hover.written, Bool.or_eq_false_iff] at h
  exact hover.kept g h.1

end Machine

/-! ## Searches -/

theorem RegisterFile.read_of_value {f : RegisterFile} {b : Bitness} {g : Gpr} {x : UInt64} (hmode : f.bitness = b)
    (hvalue : f.value g = .onBase (x &&& b.addressMask)) : f.read (b.wide g) = .onBase (x &&& b.addressMask) := by
  subst hmode
  rw [read_wide, hvalue, Value.mask, Value.bits_onBase, UInt64.and_assoc, UInt64.and_self]
  rfl

namespace ControlFlow

variable {f : ControlFlow} {i : Instruction}

theorem mem_blocks_of_index {a : UInt64} {b : Block} (h : f.index[a]? = some b) : b ∈ f.blocks := by
  rw [index, Std.HashMap.ofList_eq_insertMany_empty, Std.HashMap.getElem?_insertMany_list,
    Std.HashMap.getElem?_empty, Option.or_none, List.findSomeRev?_eq_findSome?_reverse] at h
  obtain ⟨entry, hentry, hb⟩ := List.exists_of_findSome?_eq_some h
  obtain ⟨b', hb', rfl⟩ := List.mem_map.1 (List.mem_reverse.1 hentry)
  obtain ⟨-, rfl⟩ : b'.start = a ∧ b' = b := by simpa using hb
  exact hb'

theorem mem_instructions_of_pathTo? {target : UInt64} {p : Path} (hp : f.pathTo? target = some p)
    (hi : i ∈ p.instructions) : i ∈ f.instructions := by
  obtain ⟨goal, chain, -, -, rfl⟩ := pathTo?_eq_some_iff.1 hp
  obtain ⟨start, -, hmem⟩ := List.mem_flatMap.1 ((List.takeWhile_subset _) hi)
  cases hblock : f.index[start]? with
  | none =>
    rw [hblock] at hmem
    cases hmem
  | some b =>
    rw [hblock] at hmem
    exact List.mem_flatMap.2 ⟨b, mem_blocks_of_index hblock, hmem⟩

end ControlFlow

namespace Resolver

variable {s : Resolver} {anchor target : String} {register : SharedRegister} {call a : UInt64} {q : Register}
  {path : List Instruction}

theorem isFormed_of_locate (h : s.locate anchor target = .ok (call, path)) : ∀ i ∈ path, i.IsFormed := by
  intro i hi
  obtain ⟨site, flow, p, hresult, hp, rfl⟩ := exists_of_locate h
  rcases s.image.locateCall_cases s.symbols anchor target s.settings.scanWindow with
    ⟨site', flow', hresult', hlocates⟩ | ⟨e, herror, -⟩
  · obtain ⟨rfl, rfl⟩ := Prod.mk.inj (Except.ok.inj (hresult.symm.trans hresult'))
    obtain ⟨code, -, rfl⟩ := hlocates.code
    have hmem := ControlFlow.mem_instructions_of_pathTo? hp hi
    rw [ControlFlow.build, ControlFlow.instructions_ofInstructions] at hmem
    obtain ⟨n, -, rfl⟩ := Encoding.exists_offset hmem
    exact Encoding.isFormed_decode _ _ _
  · rw [hresult] at herror
    cases herror

theorem locate_ne_registerNotWritten : s.locate anchor target ≠ .error (.divergence a (.registerNotWritten q)) := by
  rw [locate]
  rcases s.image.locateCall_cases s.symbols anchor target s.settings.scanWindow with
    ⟨site, flow, hresult, -⟩ | ⟨e, hresult, hne⟩
  · rw [hresult]
    cases hp : flow.pathTo? site.call <;> simp [bind, Except.bind, hp]
  · rw [hresult]
    exact fun h => hne _ _ (Except.error.inj h)

theorem answer_eq_registerNotWritten_iff :
    s.answer register call path = .error (.divergence a (.registerNotWritten q)) ↔
      let r := (s.machineAt (register.within s.image.bitness)).replay (fun _ _ => ()) s.settings.maxInstructions path
      a = call ∧ q = register.within s.image.bitness ∧ r.stop = none ∧
        r.machine.registers.hasWritten register.gpr = false := by
  dsimp only
  cases hstop : ((s.machineAt (register.within s.image.bitness)).replay (fun _ _ => ()) s.settings.maxInstructions
    path).stop with
  | some stop =>
    have hreason := Machine.reason_of_stop hstop
    simp only [answer, pointerAfter, hstop, Except.map, Except.error.injEq, Failure.divergence.injEq, reduceCtorEq,
      false_and, and_false, iff_false, not_and]
    rintro - hunwritten
    rw [hunwritten] at hreason
    rcases hreason with hreason | hreason <;> cases hreason
  | none =>
    have hname : ∀ f : RegisterFile, f.wasWritten (register.within s.image.bitness) = f.hasWritten register.gpr :=
      fun f => rfl
    simp only [answer, pointerAfter, hstop, pointerAt, hname, true_and]
    cases hwritten : ((s.machineAt (register.within s.image.bitness)).replay (fun _ _ => ())
      s.settings.maxInstructions path).machine.registers.hasWritten register.gpr with
    | false => simp [Except.map, eq_comm]
    | true =>
      simp only [Bool.not_true, Bool.false_eq_true, if_false, reduceCtorEq, and_false, iff_false]
      split
      · simp [Except.map]
      · split <;> simp [Except.map]

section Entry

variable {α : Type} (observe : Instruction → Machine → α)

theorem bitness_machineAt : (s.machineAt (register.within s.image.bitness)).bitness = s.image.bitness :=
  (RegisterFile.bitness_write _ _ _).trans (RegisterFile.bitness_write _ _ _)

theorem hasWritten_machineAt (formed : ∀ i ∈ path, i.IsFormed)
    (hstop : ((s.machineAt (register.within s.image.bitness)).replay observe s.settings.maxInstructions path).stop =
      none) :
    ((s.machineAt (register.within s.image.bitness)).replay observe s.settings.maxInstructions
      path).machine.registers.hasWritten register.gpr = false ↔
        ∀ i ∈ path, ¬ i.WritesTo s.image.bitness register.gpr := by
  have hwritten := Machine.hasWritten_replay_iff (.initial s.image s.settings.stackTop)
    (·.inject (register.within s.image.bitness) s.settings.sentinel) s.settings.maxInstructions path observe register.gpr
  rw [Machine.stop_eq_none_iff.1 hstop, List.take_length] at hwritten
  have hmode : (s.machineAt (register.within s.image.bitness)).bitness = s.image.bitness := bitness_machineAt
  rw [← Bool.not_eq_true, ← hmode]
  refine (not_congr hwritten).trans ?_
  simp only [not_exists, not_and]
  exact forall₂_congr fun i hi => ⟨fun h => h (formed i hi), fun h _ => h⟩

/-- A register that was not written still reads as the base. -/
theorem read_machineAt (h : ((s.machineAt (register.within s.image.bitness)).replay observe s.settings.maxInstructions
      path).machine.registers.hasWritten register.gpr = false) :
    ((s.machineAt (register.within s.image.bitness)).replay observe s.settings.maxInstructions
      path).machine.registers.read (register.within s.image.bitness) =
        .onBase (s.settings.sentinel &&& s.image.bitness.addressMask) := by
  have hentry : (RegisterFile.initial s.image.bitness s.settings.stackTop).bitness = s.image.bitness :=
    RegisterFile.bitness_write _ _ _
  have hinject := RegisterFile.value_inject (RegisterFile.initial s.image.bitness s.settings.stackTop) register
    s.settings.sentinel register.gpr
  rw [if_pos rfl, hentry] at hinject
  have hvalue := (Machine.value_replay (.initial s.image s.settings.stackTop)
    (·.inject (register.within s.image.bitness) s.settings.sentinel) s.settings.maxInstructions path observe h).trans
    hinject
  have hmode := (Machine.overwrites_replay (.initial s.image s.settings.stackTop)
    (·.inject (register.within s.image.bitness) s.settings.sentinel) s.settings.maxInstructions path observe).mode.trans
    bitness_machineAt
  exact RegisterFile.read_of_value hmode hvalue

end Entry

/--
**A register that is not written is untouched.** After any run, from any
machine and wherever it ends, a register without a mark holds what it held
when the run started, and the marked registers are the ones that an executed
instruction writes. So a search says that its register was not written only if
the call was reached, no instruction on the path writes it, and it still reads
as the base.
-/
theorem unwritten_untouched {α : Type} :
    (∀ (observe : Instruction → Machine → α) (m : Machine) (hook : RegisterFile → RegisterFile) (budget : Nat)
      (path : List Instruction),
      let r := (m.prepare hook).replay observe budget path
      (∀ g, r.machine.registers.hasWritten g = false → r.machine.registers.value g = (hook m.registers).value g) ∧
      ∀ g, r.machine.registers.hasWritten g = true ↔
        ∃ i ∈ path.take (Machine.executed budget path), i.IsFormed ∧ i.WritesTo (m.prepare hook).bitness g) ∧
    (∀ mode ip bytes, (Encoding.decode mode ip bytes).IsFormed) ∧
    ∀ (observe : Instruction → Machine → α × List Event) (s : Resolver) (anchor target : String)
      (register : SharedRegister) (a : UInt64) (q : Register),
      s.tracked anchor target register observe = .error (.divergence a (.registerNotWritten q)) ↔
        ∃ path, s.locate anchor target = .ok (a, path) ∧ q = register.within s.image.bitness ∧
          let r := (s.machineAt q).replay observe s.settings.maxInstructions path
          r.stop = none ∧ (∀ i ∈ path, ¬ i.WritesTo s.image.bitness register.gpr) ∧
            r.machine.registers.read q = .onBase (s.settings.sentinel &&& s.image.bitness.addressMask) := by
  refine ⟨fun observe m hook budget path => ⟨fun g => Machine.value_replay m hook budget path observe,
    Machine.hasWritten_replay_iff m hook budget path observe⟩, Encoding.isFormed_decode, ?_⟩
  intro observe s anchor target register a q
  rw [tracked_eq]
  cases hlocate : s.locate anchor target with
  | error e =>
    refine ⟨fun h => ?_, by rintro ⟨path, hpath, -⟩; cases hpath⟩
    obtain rfl := Except.error.inj h
    exact absurd hlocate locate_ne_registerNotWritten
  | ok located =>
    obtain ⟨call, path⟩ := located
    have formed := isFormed_of_locate hlocate
    have hsame := Machine.replayFrom_observe observe (fun _ _ => ()) s.settings.maxInstructions
      (s.machineAt (register.within s.image.bitness)) #[] #[] path
    refine answer_eq_registerNotWritten_iff.trans ?_
    constructor
    · rintro ⟨rfl, rfl, hstop, hunwritten⟩
      refine ⟨path, rfl, rfl, hsame.2.trans hstop, (hasWritten_machineAt _ formed hstop).1 hunwritten, ?_⟩
      exact (congrArg (fun m : Machine => m.registers.read _) hsame.1).trans (read_machineAt _ hunwritten)
    · rintro ⟨path', hpath, rfl, hstop, hunwritten, -⟩
      obtain ⟨rfl, rfl⟩ := Prod.mk.inj (Except.ok.inj hpath)
      have hstop' := hsame.2.symm.trans hstop
      exact ⟨rfl, rfl, hstop', (hasWritten_machineAt _ formed hstop').2 hunwritten⟩

/-- An instruction that does nothing, before a call. -/
def callBehindNop : List UInt8 :=
  [0x90, 0xe8, 0xfa, 0xff, 0, 0]

/-- A register that is not written before a call, and another one that is not written in a run. -/
theorem unwritten_untouched_behindNop :
    (alone .x64 callBehindNop).tracked "anchor" "target" .cx (fun _ _ => ((), [])) =
      .error (.divergence 0x10001 (.registerNotWritten (.gpr .cx .qword))) ∧
    (((Machine.initial (.ofBytes 0x10000 .x64 #[]) 0x800000).prepare (·.set (.gpr .dx .qword) 7)).replay
      (fun _ _ => ()) 2 [Encoding.decode .x64 0x10000 [0x31, 0xc9]]).machine.registers.value .dx = .plain 7 := by
  obtain ⟨hruns, -, hsearch⟩ := unwritten_untouched (α := Unit)
  constructor
  · have hlocated := locate_alone .x64 callBehindNop {} 0x10001 (by decide) (by decide) (by decide +kernel)
      (by decide +kernel)
    have hpath : (listing .x64 callBehindNop).takeWhile (·.ip != 0x10001) = (listing .x64 callBehindNop).take 1 := by
      decide +kernel
    rw [hpath] at hlocated
    generalize hs : alone .x64 callBehindNop = s at hlocated ⊢
    have hmode : s.image.bitness = .x64 := by rw [← hs]; rfl
    have hbudget : s.settings.maxInstructions = 10000 := by rw [← hs]; rfl
    have hstop : ((s.machineAt (SharedRegister.cx.within s.image.bitness)).replay (fun _ _ => ((), ([] : List Event)))
        s.settings.maxInstructions ((listing .x64 callBehindNop).take 1)).stop = none := by
      rw [hbudget]
      exact Machine.stop_eq_none_iff.2 (by decide +kernel)
    have hover : ∀ i ∈ (listing .x64 callBehindNop).take 1, i.overwrites .x64 .cx = false := by decide +kernel
    have hnone : ∀ i ∈ (listing .x64 callBehindNop).take 1, ¬ i.WritesTo s.image.bitness SharedRegister.cx.gpr := by
      rw [hmode]
      intro i hi hwrites
      have hover' := Instruction.overwrites_iff.2 ⟨isFormed_of_locate hlocated i hi, hwrites⟩
      exact absurd ((hover i hi).symm.trans hover') Bool.false_ne_true
    have hunwritten := (hasWritten_machineAt _ (isFormed_of_locate hlocated) hstop).2 hnone
    have hname : Register.gpr .cx .qword = SharedRegister.cx.within s.image.bitness := by
      rw [hmode]
      rfl
    rw [hname]
    exact (hsearch _ s "anchor" "target" .cx 0x10001 _).2
      ⟨_, hlocated, rfl, hstop, hnone, read_machineAt _ hunwritten⟩
  · exact ((hruns _ _ _ _ _).1 .dx (by decide +kernel)).trans (by decide +kernel)

end Resolver

end KernelOffsets

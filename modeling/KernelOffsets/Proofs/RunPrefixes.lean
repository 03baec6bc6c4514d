/-
A run executes a prefix of its path. The prefix ends at the first instruction
that is beyond the budget or invalid (`Machine.endsAt_executed`), and a run
shows, leaves and reports what the steps of that prefix do
(`Machine.replayFrom_eq`). No step asks which registers were written before it
(`Machine.SameState.step`), so a run can be cut in two
(`Machine.replay_prefix`).
-/
import KernelOffsets.Proofs.Tracking
import KernelOffsets.Proofs.WrittenRegisters

namespace KernelOffsets

namespace Machine

variable {α : Type} {observe : Instruction → Machine → α} {budget k : Nat} {path p q : List Instruction}
  {m m' : Machine}

/-! ## Where a run ends -/

/-- A run ends at `k`: before the first instruction that is beyond the budget or invalid, or behind the last one. -/
structure EndsAt (budget : Nat) (path : List Instruction) (k : Nat) : Prop where
  within : k ≤ path.length
  before : ∀ j < k, j < budget ∧ ∀ i ∈ path[j]?, i.isInvalid = false
  obstacle : ∀ i ∈ path[k]?, budget ≤ k ∨ i.isInvalid = true

/-- How many instructions of a path are executed. -/
def executed (budget : Nat) (path : List Instruction) : Nat :=
  min budget (path.findIdx (·.isInvalid))

theorem endsAt_executed (budget : Nat) (path : List Instruction) : EndsAt budget path (executed budget path) where
  within := Nat.le_trans (Nat.min_le_right _ _) List.findIdx_le_length
  before j hj := by
    obtain ⟨hbudget, hvalid⟩ := Nat.lt_min.1 hj
    refine ⟨hbudget, fun i hi => ?_⟩
    obtain ⟨-, rfl⟩ := List.getElem?_eq_some_iff.1 hi
    exact List.not_of_lt_findIdx hvalid
  obstacle i hi := by
    refine or_iff_not_imp_left.2 fun hbudget => ?_
    have hk : executed budget path = path.findIdx (·.isInvalid) := by
      unfold executed at hbudget ⊢
      omega
    rw [hk] at hi
    obtain ⟨hlt, rfl⟩ := List.getElem?_eq_some_iff.1 hi
    exact @List.findIdx_getElem _ _ _ hlt

theorem EndsAt.unique {k' : Nat} (h : EndsAt budget path k) (h' : EndsAt budget path k') : k = k' := by
  have key : ∀ {k k'}, EndsAt budget path k → EndsAt budget path k' → ¬ k < k' := by
    intro k k' h h' hlt
    obtain ⟨hbudget, hvalid⟩ := h'.before k hlt
    have hget := List.getElem?_eq_getElem (Nat.lt_of_lt_of_le hlt h'.within)
    rcases h.obstacle _ hget with hover | hinvalid
    · omega
    · rw [hvalid _ hget] at hinvalid
      cases hinvalid
  exact Nat.le_antisymm (Nat.not_lt.1 (key h' h)) (Nat.not_lt.1 (key h h'))

theorem executed_of_obstacle (path : List Instruction) {i : Instruction} {stop : Stop}
    (h : obstacle? budget i = some stop) :
    executed budget (i :: path) = 0 ∧
      stop = ⟨i.ip, if 0 = budget then .budgetExhausted else .invalidInstruction⟩ := by
  unfold obstacle? at h
  unfold executed
  rw [List.findIdx_cons]
  split at h
  · next hzero =>
    subst hzero
    exact ⟨Nat.zero_min _, (Option.some.inj h).symm⟩
  · next hbudget =>
    split at h
    · next hinvalid =>
      rw [hinvalid, if_neg (Ne.symm hbudget)]
      exact ⟨Nat.min_zero _, (Option.some.inj h).symm⟩
    · cases h

theorem executed_of_go (path : List Instruction) {i : Instruction} (h : obstacle? budget i = none) :
    0 < budget ∧ executed budget (i :: path) = executed (budget - 1) path + 1 := by
  unfold obstacle? at h
  unfold executed
  rw [List.findIdx_cons]
  split at h
  · cases h
  · split at h
    · cases h
    · next hbudget hvalid =>
      rw [eq_false_of_ne_true hvalid, cond_false]
      omega

/-! ## What a run does -/

/-- **A run** shows, leaves and reports what the steps of its executed prefix do. -/
theorem replayFrom_eq (observe : Instruction → Machine → α) (budget : Nat) (m : Machine) (seen : Array α)
    (path : List Instruction) :
    let k := executed budget path
    let r := replayFrom observe budget m seen path
    r.seen.toList = seen.toList ++ (path.take k).mapIdx (fun j i => observe i ((path.take j).foldl step m)) ∧
      r.machine = (path.take k).foldl step m ∧
      r.stop = path[k]?.map fun i => ⟨i.ip, if k = budget then .budgetExhausted else .invalidInstruction⟩ := by
  induction path generalizing budget m seen with
  | nil => simp [replayFrom]
  | cons i path ih =>
    dsimp only
    cases hgo : obstacle? budget i with
    | some stop =>
      obtain ⟨hk, hstop⟩ := executed_of_obstacle path hgo
      simp [replayFrom, hgo, hk, hstop]
    | none =>
      obtain ⟨hpos, hk⟩ := executed_of_go path hgo
      obtain ⟨hseen, hmachine, hstop⟩ := ih (budget - 1) (m.step i) (seen.push (observe i m))
      have hlast : executed (budget - 1) path + 1 = budget ↔ executed (budget - 1) path = budget - 1 := by omega
      rw [replayFrom_cons observe budget m seen i path hgo, hk, hseen, hmachine, hstop]
      simp [hlast]

theorem reason_of_stop {stop : Stop} (h : (m.replay observe budget path).stop = some stop) :
    stop.reason = .budgetExhausted ∨ stop.reason = .invalidInstruction := by
  rw [Machine.replay, (replayFrom_eq observe budget m #[] path).2.2] at h
  obtain ⟨i, -, rfl⟩ := Option.map_eq_some_iff.1 h
  dsimp only
  split
  · exact .inl rfl
  · exact .inr rfl

/-- A run of a path goes through the whole front of it, or ends there. -/
theorem replayFrom_append (observe : Instruction → Machine → α) (budget : Nat) (m : Machine) (seen : Array α)
    (p q : List Instruction) :
    let front := replayFrom observe budget m seen p
    replayFrom observe budget m seen (p ++ q) =
      if front.stop = none then replayFrom observe (budget - p.length) front.machine front.seen q else front := by
  induction p generalizing budget m seen with
  | nil => simp [replayFrom]
  | cons i p ih =>
    dsimp only
    cases hgo : obstacle? budget i with
    | some stop => simp [replayFrom, hgo]
    | none =>
      rw [List.cons_append, replayFrom_cons observe budget m seen i _ hgo,
        replayFrom_cons observe budget m seen i p hgo, ih, List.length_cons, Nat.add_comm, Nat.sub_add_eq]

/-! ## Written marks -/

/-- Two machines are the same but for what counts as written. -/
structure SameState (m m' : Machine) : Prop where
  image : m.image = m'.image
  mode : m.bitness = m'.bitness
  values : m.registers.values = m'.registers.values
  memory : m.memory = m'.memory

/-- The machine in which other registers count as written. -/
def marking (m : Machine) (written : Vector Bool 16) : Machine :=
  { m with registers := { m.registers with written } }

namespace SameState

theorem eq_marking (h : SameState m m') : m' = m.marking m'.registers.written := by
  obtain ⟨image, ⟨mode, values, written⟩, memory⟩ := m
  obtain ⟨image', ⟨mode', values', written'⟩, memory'⟩ := m'
  obtain ⟨rfl, hmode, rfl, rfl⟩ := h
  obtain rfl : mode = mode' := hmode
  rfl

theorem writeRegister (h : SameState m m') (r : Register) (v : Value) :
    SameState (m.writeRegister r v) (m'.writeRegister r v) := by
  rw [h.eq_marking]
  cases r <;> exact ⟨rfl, rfl, rfl, rfl⟩

theorem store (h : SameState m m') (a : UInt64) (n : Nat) (v : Value) : SameState (m.store a n v) (m'.store a n v) := by
  rw [h.eq_marking]
  exact ⟨rfl, rfl, rfl, rfl⟩

theorem read (h : SameState m m') (r : Register) : m'.registers.read r = m.registers.read r := by
  rw [h.eq_marking]
  cases r <;> rfl

theorem address (h : SameState m m') (o : MemoryOperand) : m'.registers.address o = m.registers.address o := by
  have hmode : m'.registers.bitness = m.registers.bitness := h.mode.symm
  simp only [RegisterFile.address, RegisterFile.scaled, h.read, hmode]

theorem storesOf (h : SameState m m') (i : Instruction) : m'.storesOf i = m.storesOf i := by
  have hmode : m'.registers.bitness = m.registers.bitness := h.mode.symm
  have hknown : ∀ r, m'.registers.known? r = m.registers.known? r := by
    intro r
    cases r <;> simp only [RegisterFile.known?, h.read]
  simp only [Machine.storesOf, RegisterFile.knownAddress?, hknown, hmode]

theorem load (h : SameState m m') (a : UInt64) (n : Nat) : m'.load a n = m.load a n := by
  rw [h.eq_marking]
  rfl

theorem fetch (h : SameState m m') (o : Operand) : m'.fetch o = m.fetch o := by
  cases o <;> simp only [Machine.fetch, h.read, h.address, h.load]

theorem assign (h : SameState m m') (o : Operand) (v : Value) : SameState (m.assign o v) (m'.assign o v) := by
  cases o with
  | register r => exact h.writeRegister r v
  | memory o =>
    simp only [Machine.assign, h.address]
    exact h.store _ _ v
  | _ => exact h

theorem operandBytes (h : SameState m m') (o : Operand) : m'.operandBytes o = m.operandBytes o := by
  cases o <;> simp only [Machine.operandBytes, h.mode]

theorem stackTop (h : SameState m m') : m'.stackTop = m.stackTop := by
  rw [Machine.stackTop, Machine.stackTop, h.read, h.mode]

theorem setStackTop (h : SameState m m') (a : UInt64) : SameState (m.setStackTop a) (m'.setStackTop a) := by
  simp only [Machine.setStackTop, ← h.mode]
  exact h.writeRegister m.bitness.stackPointer _

theorem clobberAll (h : SameState m m') (rs : List Register) : SameState (rs.foldl clobber m) (rs.foldl clobber m') := by
  induction rs generalizing m m' with
  | nil => exact h
  | cons r rs ih => exact ih (h.writeRegister r (.plain 0))

theorem forget (h : SameState m m') (i : Instruction) : SameState (m.forget i) (m'.forget i) := by
  simp only [Machine.forget, h.storesOf, ← h.memory, ← h.mode]
  refine clobberAll ?_ i.changes
  exact ⟨h.image, h.mode, h.values, rfl⟩

theorem stepOther (h : SameState m m') (i : Instruction) : SameState (m.stepOther i) (m'.stepOther i) := by
  unfold Machine.stepOther
  cases i.flow with
  | call | indirectCall =>
    simp only [skipCall, ← h.mode]
    exact h.clobberAll _
  | conditionalBranch | unconditionalBranch | indirectBranch => exact h
  | _ => exact h.forget i

/-- **One instruction** does the same whatever counts as written. -/
theorem step (h : SameState m m') (i : Instruction) : SameState (m.step i) (m'.step i) := by
  unfold Machine.step combine change
  simp only [h.fetch, h.operandBytes]
  cases i.operation with
  | nop | cmp | test | bt => exact h
  | invalid | unmodelled name => exact h.stepOther i
  | push =>
    have hmoved := h.setStackTop (m.stackTop - i.stackBytes.toUInt64)
    simp only [Machine.push, h.fetch, h.stackTop, hmoved.stackTop]
    exact hmoved.store _ _ _
  | pop =>
    simp only [Machine.pop, h.load, h.stackTop]
    exact (h.setStackTop _).assign i.first _
  | xchg =>
    simp only [Machine.exchange, h.fetch]
    exact (h.assign i.first _).assign i.second _
  | lea =>
    cases hsecond : i.second with
    | memory o =>
      simp only [h.address]
      exact h.assign i.first _
    | _ => exact h
  | sub | xor =>
    dsimp only
    split <;> exact h.assign i.first _
  | _ => exact h.assign i.first _

end SameState

/-! ## Runs in two parts -/

/-- Budgets that are long enough for a path make no difference. -/
theorem replayFrom_of_length_le {budget' : Nat} {seen : Array α} (h : path.length ≤ budget)
    (h' : path.length ≤ budget') : replayFrom observe budget m seen path = replayFrom observe budget' m seen path := by
  induction path generalizing budget budget' m seen with
  | nil => rfl
  | cons i path ih =>
    rw [List.length_cons] at h h'
    have hsame : obstacle? budget i = obstacle? budget' i := by
      have hpos : budget ≠ 0 := by omega
      have hpos' : budget' ≠ 0 := by omega
      rw [obstacle?, obstacle?, if_neg hpos, if_neg hpos']
    simp only [replayFrom, hsame]
    cases obstacle? budget' i with
    | some stop => rfl
    | none => exact ih (by omega) (by omega)

theorem stop_eq_none_iff : (m.replay observe budget path).stop = none ↔ executed budget path = path.length := by
  rw [Machine.replay, (replayFrom_eq observe budget m #[] path).2.2, Option.map_eq_none_iff, List.getElem?_eq_none_iff]
  exact ⟨Nat.le_antisymm (endsAt_executed budget path).within, Nat.le_of_eq ∘ Eq.symm⟩

theorem length_le_of_stop (h : (m.replay observe budget path).stop = none) : path.length ≤ budget :=
  stop_eq_none_iff.1 h ▸ Nat.min_le_left _ _

theorem SameState.steps (h : SameState m m') (path : List Instruction) :
    SameState (path.foldl Machine.step m) (path.foldl Machine.step m') := by
  induction path generalizing m m' with
  | nil => exact h
  | cons i path ih => exact ih (h.step i)

/-- A run of the back, with nothing written yet, ends like the run of front and back. -/
theorem replay_append (hwithin : p.length + q.length ≤ budget) (hfront : (m.replay observe budget p).stop = none) :
    let front := (m.replay observe budget p).machine
    let back := (front.prepare id).replay observe budget q
    let whole := m.replay observe budget (p ++ q)
    whole.stop = back.stop ∧ SameState whole.machine back.machine ∧
      ∀ g, whole.machine.registers.hasWritten g =
        (front.registers.hasWritten g || back.machine.registers.hasWritten g) := by
  intro front back whole
  have hwhole : whole = replayFrom observe budget front (m.replay observe budget p).seen q := by
    refine ((replayFrom_append observe budget m #[] p q).trans (if_pos hfront)).trans ?_
    exact replayFrom_of_length_le (by omega) (by omega)
  obtain ⟨-, hmachine, hstop⟩ := replayFrom_eq observe budget front (m.replay observe budget p).seen q
  obtain ⟨-, hmachine', hstop'⟩ := replayFrom_eq observe budget (front.prepare id) #[] q
  have hsame : SameState front (front.prepare id) := ⟨rfl, rfl, rfl, rfl⟩
  refine ⟨?_, ?_, fun g => ?_⟩
  · rw [hwhole, hstop, ← hstop']
    rfl
  · rw [hwhole, hmachine, show back.machine = _ from hmachine']
    exact hsame.steps _
  · have hnone : (front.prepare id).registers.hasWritten g = false := RegisterFile.hasWritten_clearWritten _ _
    rw [hwhole, hmachine, show back.machine = _ from hmachine', (overwrites_steps _ _).written,
      (overwrites_steps _ _).written, hnone, Bool.or_false, Bool.or_comm]
    rfl

/-- **Runs execute prefixes and compose.** A run does what the steps before its end do, and shows each of them. A larger
budget adds nothing to a run that reached the end of its path. If a path within the budget is cut in two, then a run of
both parts ends like a run of the back after one of the front, or already in the front. -/
theorem replay_prefix (m : Machine) (hook : RegisterFile → RegisterFile) (budget : Nat)
    (observe : Instruction → Machine → α) :
    let start := m.prepare hook
    (∀ path, ∃! k, EndsAt budget path k) ∧
    (∀ path k, EndsAt budget path k →
      let r := start.replay observe budget path
      r.seen.toList = (path.take k).mapIdx (fun j i => observe i ((path.take j).foldl step start)) ∧
        r.machine = (path.take k).foldl step start ∧ (r.stop = none ↔ k = path.length) ∧
        r.stop = path[k]?.map fun i => ⟨i.ip, if k = budget then .budgetExhausted else .invalidInstruction⟩) ∧
    (∀ path larger, (start.replay observe budget path).stop = none → budget ≤ larger →
      start.replay observe larger path = start.replay observe budget path) ∧
    ∀ p q, p.length + q.length ≤ budget →
      let front := start.replay observe budget p
      let back := (front.machine.prepare id).replay observe budget q
      let whole := start.replay observe budget (p ++ q)
      (front.stop ≠ none → whole = front) ∧
      (front.stop = none → whole.stop = back.stop ∧ SameState whole.machine back.machine ∧
        ∀ g, whole.machine.registers.hasWritten g =
          (front.machine.registers.hasWritten g || back.machine.registers.hasWritten g)) := by
  refine ⟨fun path => ⟨_, endsAt_executed budget path, fun k h => h.unique (endsAt_executed budget path)⟩,
    fun path k h => ?_, fun path larger hend hle => ?_, fun p q hwithin => ⟨fun hstop => ?_, replay_append hwithin⟩⟩
  · obtain rfl := h.unique (endsAt_executed budget path)
    obtain ⟨hseen, hmachine, hstop⟩ := replayFrom_eq observe budget (m.prepare hook) #[] path
    exact ⟨hseen, hmachine, stop_eq_none_iff, hstop⟩
  · have hlength := length_le_of_stop hend
    exact replayFrom_of_length_le (Nat.le_trans hlength hle) hlength
  · exact (replayFrom_append observe budget (m.prepare hook) #[] p q).trans (if_neg hstop)

/-- The pointer below the top of the stack. -/
def belowTop : MemoryOperand := ⟨.segment .ss, .gpr .sp .qword, .absent, 1, 0xfffffffffffffff8, 8⟩

/-- Saves the counter below the top of the stack. -/
theorem step_saveBelow {m : Machine} {address : UInt64} {v : Value}
    (haddress : (m.registers.address belowTop).bits = address) (hv : m.registers.read (.gpr .cx .qword) = v) :
    m.step (Encoding.decode .x64 0x10000 [0x48, 0x89, 0x4c, 0x24, 0xf8]) = m.store address 8 v := by
  rw [m.step_mov (o := .memory belowTop) (q := .register (.gpr .cx .qword)) (by decide +kernel) (by decide +kernel),
    assign, haddress, fetch, hv]
  rfl

/-- Loads what stands below the top of the stack. -/
theorem step_loadBelow {m : Machine} {address : UInt64} {v : Value}
    (haddress : (m.registers.address belowTop).bits = address) (hv : m.load address 8 = v) :
    m.step (Encoding.decode .x64 0x10005 [0x48, 0x8b, 0x44, 0x24, 0xf8]) = m.writeRegister (.gpr .ax .qword) v := by
  rw [m.step_mov (o := .register (.gpr .ax .qword)) (q := .memory belowTop) (by decide +kernel) (by decide +kernel),
    assign, fetch, haddress]
  exact congrArg _ hv

/-- Points eight bytes behind what was loaded. -/
theorem step_leaAhead {m : Machine} {v : Value}
    (hv : m.registers.address ⟨.segment .ds, .gpr .ax .qword, .absent, 1, 8, 0⟩ = v) :
    m.step (Encoding.decode .x64 0x1000a [0x48, 0x8d, 0x50, 0x08]) = m.writeRegister (.gpr .dx .qword) v := by
  rw [m.step_lea (o := .register (.gpr .dx .qword)) (a := ⟨.segment .ds, .gpr .ax .qword, .absent, 1, 8, 0⟩)
    (by decide +kernel) (by decide +kernel), hv]
  rfl

/--
A base that is set up before the run is saved below the stack, loaded into a
second register, and a third one is set behind it; then follows an invalid
instruction. A run up to there, one that its budget ends, one with a larger
budget, and one cut behind the load.
-/
theorem replay_prefix_saved :
    let m := (initial (.ofBytes 0x10000 .x64 #[]) 0x800000).writeRegister (.gpr .bx .qword) (.plain 5)
    let hook := fun f : RegisterFile => f.inject (.gpr .cx .qword) 0x1000
    let start := m.prepare hook
    let save := Encoding.decode .x64 0x10000 [0x48, 0x89, 0x4c, 0x24, 0xf8]
    let load := Encoding.decode .x64 0x10005 [0x48, 0x8b, 0x44, 0x24, 0xf8]
    let ahead := Encoding.decode .x64 0x1000a [0x48, 0x8d, 0x50, 0x08]
    let bad := Encoding.decode .x64 0x1000e [0x06]
    let observe := fun (i : Instruction) (m : Machine) => (i.ip, m.registers.read (.gpr .ax .qword))
    let run := start.replay observe 9 [save, load, ahead, bad]
    let front := start.replay observe 9 [save, load]
    let back := (front.machine.prepare id).replay observe 9 [ahead]
    let whole := start.replay observe 9 ([save, load] ++ [ahead])
    run.stop = some ⟨0x1000e, .invalidInstruction⟩ ∧
      run.seen.toList = [(0x10000, .plain 0), (0x10005, .plain 0), (0x1000a, .onBase 0x1000)] ∧
      run.machine.registers.read (.gpr .dx .qword) = .onBase 0x1008 ∧
      run.machine.load 0x7ffff8 8 = .onBase 0x1000 ∧
      (start.replay observe 2 [save, load, ahead, bad]).stop = some ⟨0x1000a, .budgetExhausted⟩ ∧
      start.replay observe 9 [save, load, ahead] = start.replay observe 3 [save, load, ahead] ∧
      SameState whole.machine back.machine ∧
      front.machine.registers.hasWritten .dx = false ∧ back.machine.registers.hasWritten .ax = false ∧
      whole.machine.registers.hasWritten .ax = true ∧ whole.machine.registers.hasWritten .dx = true := by
  intro m hook start save load ahead bad observe run front back whole
  have hsaved : start.step save = start.store 0x7ffff8 8 (.onBase 0x1000) :=
    step_saveBelow (by decide +kernel) (by decide +kernel)
  have hword : (start.store 0x7ffff8 8 (.onBase 0x1000)).load 0x7ffff8 8 = .onBase 0x1000 :=
    load_store_eight (by decide +kernel)
  have hloaded : (start.step save).step load =
      (start.store 0x7ffff8 8 (.onBase 0x1000)).writeRegister (.gpr .ax .qword) (.onBase 0x1000) := by
    rw [hsaved]
    exact step_loadBelow (by decide +kernel) hword
  have hmoved : ((start.step save).step load).step ahead =
      ((start.store 0x7ffff8 8 (.onBase 0x1000)).writeRegister (.gpr .ax .qword) (.onBase 0x1000)).writeRegister
        (.gpr .dx .qword) (.onBase 0x1008) := by
    rw [hloaded]
    exact step_leaAhead (by decide +kernel)
  have hends : ∀ {budget path k}, executed budget path = k → EndsAt budget path k :=
    fun hk => hk ▸ endsAt_executed _ _
  obtain ⟨-, hshown, hlarger, hcut⟩ := replay_prefix m hook 9 observe
  obtain ⟨hseen, hmachine, -, hstop⟩ := hshown [save, load, ahead, bad] 3 (hends (by decide +kernel))
  have hmachine : run.machine = ((start.step save).step load).step ahead := hmachine
  obtain ⟨-, hshown', hlarger', -⟩ := replay_prefix m hook 3 observe
  obtain ⟨-, hcut₂, -⟩ := replay_prefix m hook 2 observe
  have hexhausted := (hcut₂ [save, load, ahead, bad] 2 (hends (by decide +kernel))).2.2.2
  have hreached : (start.replay observe 3 [save, load, ahead]).stop = none :=
    (hshown' [save, load, ahead] 3 (hends (by decide +kernel))).2.2.1.2 rfl
  have hfrontEnd : front.stop = none := (hshown [save, load] 2 (hends (by decide +kernel))).2.2.1.2 rfl
  obtain ⟨-, hsame, hwritten⟩ := (hcut [save, load] [ahead] (by decide)).2 hfrontEnd
  rw [hmoved] at hmachine
  refine ⟨hstop, ?_, ?_, ?_, hexhausted, hlarger' _ 9 hreached (by decide), hsame, ?_⟩
  · have hfirst : observe save start = (0x10000, .plain 0) := by decide +kernel
    have hsecond : observe load (start.step save) = (0x10005, .plain 0) := by
      rw [hsaved]
      decide +kernel
    have hthird : observe ahead ((start.step save).step load) = (0x1000a, .onBase 0x1000) := by
      rw [hloaded]
      decide +kernel
    rw [← hfirst, ← hsecond, ← hthird]
    exact hseen
  · rw [hmachine]
    decide +kernel
  · rw [hmachine]
    exact hword
  · have hfrontWritten : front.machine.registers.hasWritten .ax = true ∧
        front.machine.registers.hasWritten .dx = false := by decide +kernel
    have hbackWritten : back.machine.registers.hasWritten .ax = false ∧
        back.machine.registers.hasWritten .dx = true := by decide +kernel
    rw [hwritten, hwritten, hfrontWritten.1, hfrontWritten.2, hbackWritten.1, hbackWritten.2]
    decide

end Machine

end KernelOffsets

/-
Runs of one machine, one after the other. An instruction changes a machine
only through the register names in it, by stores and by ending spills, so
what these keep (`Machine.Keeping`) is kept by every instruction
(`Keeping.step`) and by any number of runs, wherever they end
(`Machine.runs_invariant`). Two machines of which each instruction keeps a
relation stop at the same place and show the same (`Machine.replay_related`).
-/
import KernelOffsets.Machine.Replay

namespace KernelOffsets

/-- What is written to the registers before a run, and the instructions of the run. -/
structure Run where
  writes : List (Register × Value)
  path : List Instruction

/-- Writes some values in order. -/
def RegisterFile.writeAll (f : RegisterFile) (writes : List (Register × Value)) : RegisterFile :=
  writes.foldl (fun f w => f.write w.1 w.2) f

/-- The register names through which an instruction may write. -/
def Instruction.Names (b : Bitness) (i : Instruction) (r : Register) : Prop :=
  i.first = .register r ∨ i.second = .register r ∨ r ∈ i.changes ∨ r = b.stackPointer ∨ r ∈ b.volatile

namespace Machine

/-- The machine whose registers are set up for a run. -/
def enter (m : Machine) (writes : List (Register × Value)) : Machine :=
  m.prepare (·.writeAll writes)

/-- The machine that a run leaves, wherever it ends. -/
def afterRun (budget : Nat) (m : Machine) (run : Run) : Machine :=
  ((m.enter run.writes).replay (fun _ _ => ()) budget run.path).machine

/-! ## Two machines -/

section Related

variable {α : Type} {R : Machine → Machine → Prop} {observe observe' : Instruction → Machine → α}
  {path : List Instruction}

theorem replayFrom_related (hstep : ∀ i ∈ path, ∀ m m', R m m' → R (m.step i) (m'.step i))
    (hobserve : ∀ i ∈ path, ∀ m m', R m m' → observe i m = observe' i m') (n : Nat) :
    ∀ (m m' : Machine) (seen : Array α), R m m' →
      (replayFrom observe n m seen path).stop = (replayFrom observe' n m' seen path).stop ∧
      (replayFrom observe n m seen path).seen = (replayFrom observe' n m' seen path).seen ∧
      R (replayFrom observe n m seen path).machine (replayFrom observe' n m' seen path).machine := by
  induction path generalizing n with
  | nil => exact fun m m' seen h => ⟨rfl, rfl, h⟩
  | cons i path ih =>
    intro m m' seen h
    cases hgo : obstacle? n i with
    | some stop =>
      simp only [replayFrom, hgo]
      exact ⟨trivial, trivial, h⟩
    | none =>
      rw [replayFrom_cons observe n m seen i path hgo, replayFrom_cons observe' n m' seen i path hgo,
        hobserve i (by simp) m m' h]
      exact ih (fun j hj => hstep j (by simp [hj])) (fun j hj => hobserve j (by simp [hj])) (n - 1) _ _ _
        (hstep i (by simp) m m' h)

/-- **Related machines:** if every instruction keeps a relation in which both show the same, then a replay
stops at the same place on both, shows the same, and keeps the relation. -/
theorem replay_related (hstep : ∀ i ∈ path, ∀ m m', R m m' → R (m.step i) (m'.step i))
    (hobserve : ∀ i ∈ path, ∀ m m', R m m' → observe i m = observe' i m') (n : Nat) {m m' : Machine} (h : R m m') :
    (m.replay observe n path).stop = (m'.replay observe' n path).stop ∧
    (m.replay observe n path).seen = (m'.replay observe' n path).seen ∧
    R (m.replay observe n path).machine (m'.replay observe' n path).machine :=
  replayFrom_related hstep hobserve n m m' #[] h

/-- What every instruction keeps is kept by a replay, wherever it ends. -/
theorem replay_invariant {P : Machine → Prop} (hstep : ∀ i ∈ path, ∀ m, P m → P (m.step i)) (n : Nat)
    {m : Machine} (h : P m) : P (m.replay observe n path).machine := by
  have hboth : ∀ i ∈ path, ∀ m m' : Machine, P m ∧ m' = m → P (m.step i) ∧ m'.step i = m.step i := by
    rintro i hi m m' ⟨h, rfl⟩
    exact ⟨hstep i hi m' h, rfl⟩
  have hshown : ∀ i ∈ path, ∀ m m' : Machine, P m ∧ m' = m → observe i m = observe i m' := by
    rintro i - m m' ⟨-, rfl⟩
    rfl
  exact (replay_related hboth hshown n ⟨h, rfl⟩).2.2.1

end Related

/-! ## One instruction -/

/-- A property is kept by whatever an instruction may do to a machine of a mode. -/
structure Keeping (b : Bitness) (i : Instruction) (P : Machine → Prop) : Prop where
  mode : ∀ {m}, P m → m.bitness = b
  write : ∀ {m r} (v : Value), i.Names b r → P m → P (m.writeRegister r v)
  store : ∀ {m} (a : UInt64) (n : Nat) (v : Value), P m → P (m.store a n v)
  forgetSpills : ∀ {m}, P m → P { m with memory := m.memory.forgetSpills }

namespace Keeping

variable {b : Bitness} {i : Instruction} {P : Machine → Prop} {m : Machine}

theorem assign (h : Keeping b i P) {o : Operand} (v : Value) (ho : i.first = o ∨ i.second = o) (hm : P m) :
    P (m.assign o v) := by
  cases o with
  | register r => exact h.write v (ho.imp id .inl) hm
  | memory o => exact h.store _ _ v hm
  | _ => exact hm

theorem clobberAll (h : Keeping b i P) {rs : List Register} (hrs : ∀ r ∈ rs, i.Names b r) (hm : P m) :
    P (rs.foldl clobber m) := by
  induction rs generalizing m with
  | nil => exact hm
  | cons r rs ih => exact ih (fun q hq => hrs q (by simp [hq])) (h.write (.plain 0) (hrs r (by simp)) hm)

theorem setStackTop (h : Keeping b i P) (address : UInt64) (hm : P m) : P (m.setStackTop address) :=
  h.write (.plain (address &&& m.bitness.addressMask)) (.inr (.inr (.inr (.inl (h.mode hm ▸ rfl))))) hm

theorem storeAll (h : Keeping b i P) (targets : List (Option UInt64 × Nat)) (hm : P m) :
    P { m with memory := targets.foldl (storeUnknown · m.bitness) m.memory } := by
  induction targets generalizing m with
  | nil => exact hm
  | cons target targets ih =>
    have hone : P { m with memory := storeUnknown m.memory m.bitness target } := by
      rcases target with ⟨- | a, - | n⟩
      · exact h.forgetSpills hm
      · exact h.forgetSpills hm
      · exact h.forgetSpills hm
      · exact h.store a (n + 1) (.plain 0) hm
    exact ih hone

theorem forget (h : Keeping b i P) (hm : P m) : P (m.forget i) := by
  have hcleared : P { m with memory := if i.repeated then m.memory.forgetSpills else m.memory } := by
    cases i.repeated with
    | true => exact h.forgetSpills hm
    | false => exact hm
  exact h.clobberAll (fun r hr => .inr (.inr (.inl hr))) (h.storeAll (m.storesOf i) hcleared)

theorem stepOther (h : Keeping b i P) (hm : P m) : P (m.stepOther i) := by
  unfold Machine.stepOther
  cases i.flow with
  | call | indirectCall =>
    exact h.clobberAll (fun r hr => .inr (.inr (.inr (.inr (h.mode hm ▸ hr))))) hm
  | conditionalBranch | unconditionalBranch | indirectBranch => exact hm
  | _ => exact h.forget hm

/-- **One instruction** keeps what its writes, its stores and the end of spills keep. -/
theorem step (h : Keeping b i P) (hm : P m) : P (m.step i) := by
  have first (v : Value) : P (m.assign i.first v) := h.assign v (.inl rfl) hm
  unfold Machine.step combine change
  cases i.operation with
  | nop | cmp | test | bt => exact hm
  | invalid | unmodelled name => exact h.stepOther hm
  | lea =>
    dsimp only
    split
    · exact first _
    · exact hm
  | sub | xor =>
    dsimp only
    split <;> exact first _
  | push => exact h.store _ _ _ (h.setStackTop _ hm)
  | pop => exact h.assign _ (.inl rfl) (h.setStackTop _ hm)
  | xchg => exact h.assign _ (.inr rfl) (first _)
  | _ => exact first _

end Keeping

/-! ## Any number of runs -/

theorem enter_invariant {P : Machine → Prop} {m : Machine} {writes : List (Register × Value)}
    (hwrite : ∀ w ∈ writes, ∀ m, P m → P (m.writeRegister w.1 w.2))
    (hclear : ∀ m, P m → P { m with registers := m.registers.clearWritten }) (hm : P m) : P (m.enter writes) := by
  have key : P { m with registers := m.registers.writeAll writes } := by
    unfold RegisterFile.writeAll
    induction writes generalizing m with
    | nil => exact hm
    | cons w writes ih => exact ih (fun u hu => hwrite u (by simp [hu])) (hwrite w (by simp) m hm)
  exact hclear _ key

/-- **Any number of runs** keep what holds through the writes before each of them and through every instruction. -/
theorem runs_invariant {P : Machine → Prop} {runs : List Run} {m : Machine} (budget : Nat)
    (hwrite : ∀ run ∈ runs, ∀ w ∈ run.writes, ∀ m, P m → P (m.writeRegister w.1 w.2))
    (hclear : ∀ m, P m → P { m with registers := m.registers.clearWritten })
    (hstep : ∀ run ∈ runs, ∀ i ∈ run.path, ∀ m, P m → P (m.step i)) (hm : P m) :
    P (runs.foldl (afterRun budget) m) := by
  induction runs generalizing m with
  | nil => exact hm
  | cons run runs ih =>
    refine ih (fun r hr => hwrite r (by simp [hr])) (fun r hr => hstep r (by simp [hr])) ?_
    exact replay_invariant (hstep run (by simp)) budget (enter_invariant (hwrite run (by simp)) hclear hm)

end Machine

end KernelOffsets

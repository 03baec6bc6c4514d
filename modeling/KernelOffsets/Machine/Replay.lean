/-
Replaying a path: instruction after instruction until the path ends, the
budget is used up, or an instruction is none. What is observed before each
instruction is collected in order; observing does not change the machine.
-/
import KernelOffsets.Failure
import KernelOffsets.Machine.Step

namespace KernelOffsets

/-- Where a replay ended early, and why. -/
structure Stop where
  address : UInt64
  reason : Divergence
  deriving DecidableEq, Repr

/-- What is left of a replay: the machine, the observations, and whether it ended early. -/
structure Replay (α : Type) where
  machine : Machine
  seen : Array α
  stop : Option Stop

namespace Machine

/-- Why an instruction is not run, with `budget` instructions still allowed; the budget is asked first. -/
def obstacle? (budget : Nat) (i : Instruction) : Option Stop :=
  if budget = 0 then some ⟨i.ip, .budgetExhausted⟩
  else if i.isInvalid then some ⟨i.ip, .invalidInstruction⟩
  else none

/-- Lets the registers be set up; what is written then does not count as written. -/
def prepare (m : Machine) (f : RegisterFile → RegisterFile) : Machine :=
  { m with registers := (f m.registers).clearWritten }

/-- Replays a path on top of what was seen before. -/
def replayFrom {α : Type} (observe : Instruction → Machine → α) :
    Nat → Machine → Array α → List Instruction → Replay α
  | _, m, seen, [] => ⟨m, seen, none⟩
  | budget, m, seen, i :: path =>
    match obstacle? budget i with
    | some stop => ⟨m, seen, some stop⟩
    | none =>
      let seen := seen.push (observe i m)
      replayFrom observe (budget - 1) (m.step i) seen path

/-- Replays a path of at most `budget` instructions, with `observe` looking on before each. -/
def replay {α : Type} (observe : Instruction → Machine → α) (budget : Nat) (m : Machine)
    (path : List Instruction) : Replay α :=
  replayFrom observe budget m #[] path

theorem replayFrom_nil {α : Type} (observe : Instruction → Machine → α) (n : Nat) (m : Machine)
    (seen : Array α) : replayFrom observe n m seen [] = ⟨m, seen, none⟩ := rfl

theorem replayFrom_cons {α : Type} (observe : Instruction → Machine → α) (n : Nat) (m : Machine)
    (seen : Array α) (i : Instruction) (path : List Instruction) (h : obstacle? n i = none) :
    replayFrom observe n m seen (i :: path)
      = replayFrom observe (n - 1) (m.step i) (seen.push (observe i m)) path := by
  simp [replayFrom, h]

/-- What is observed has no influence on where the replay ends and how. -/
theorem replayFrom_observe {α β : Type} (f : Instruction → Machine → α) (g : Instruction → Machine → β) :
    ∀ (n : Nat) (m : Machine) (s : Array α) (t : Array β) (path : List Instruction),
      (replayFrom f n m s path).machine = (replayFrom g n m t path).machine ∧
      (replayFrom f n m s path).stop = (replayFrom g n m t path).stop
  | _, _, _, _, [] => ⟨rfl, rfl⟩
  | n, m, s, t, i :: path => by
    simp only [replayFrom]
    cases obstacle? n i with
    | some stop => exact ⟨rfl, rfl⟩
    | none => exact replayFrom_observe f g _ _ _ _ path

end Machine

end KernelOffsets

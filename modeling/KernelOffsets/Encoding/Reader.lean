/-
Reading from the front of a list of bytes. A reader either takes what it
needs or runs out of bytes; it never looks at bytes it does not take, which
is `Reader.Stable`: bytes that follow do not change the result.
-/
import KernelOffsets.Value

namespace KernelOffsets.Encoding

/-- Takes bytes from the front of a list; `none` if there are too few. -/
abbrev Reader (α : Type) := StateT (List UInt8) Option α

namespace Reader

/-- Takes one byte. -/
def byte : Reader UInt8 := fun
  | [] => none
  | b :: rest => some (b, rest)

/-- Takes `n` bytes as a number, the lowest byte first. -/
def little : Nat → Reader UInt64
  | 0 => pure 0
  | n + 1 => do
    let low ← byte
    let high ← little n
    return low.toUInt64 ||| (high <<< 8)

/-- Takes `n` bytes as a signed number, the lowest byte first. -/
def signed (n : Nat) : Reader UInt64 := do
  return signExtend n (← little n)

/-- Looks at the next byte without taking it. -/
def peek : Reader UInt8 := fun
  | [] => none
  | b :: rest => some (b, b :: rest)

/-- The bytes after those that a reader takes do not matter to it: any others may stand there. -/
def Stable {α : Type} (r : Reader α) : Prop :=
  ∀ bytes a rest, r bytes = some (a, rest) →
    ∃ taken, bytes = taken ++ rest ∧ ∀ more, r (taken ++ more) = some (a, more)

theorem Stable.pure {α : Type} (a : α) : Stable (Pure.pure a : Reader α) := by
  intro bytes b rest h
  cases h
  exact ⟨[], rfl, fun more => rfl⟩

theorem Stable.bind {α β : Type} {r : Reader α} {f : α → Reader β} (hr : Stable r)
    (hf : ∀ a, Stable (f a)) : Stable (r >>= f) := by
  intro bytes b rest h
  cases e : r bytes with
  | none => simp [Bind.bind, StateT.bind, e] at h
  | some p =>
    obtain ⟨a, rest'⟩ := p
    simp only [Bind.bind, StateT.bind, e, Option.bind_some] at h
    obtain ⟨first, rfl, hfirst⟩ := hr _ _ _ e
    obtain ⟨second, rfl, hsecond⟩ := hf a _ _ _ h
    refine ⟨first ++ second, (List.append_assoc ..).symm, fun more => ?_⟩
    simp only [Bind.bind, StateT.bind, List.append_assoc, hfirst, Option.bind_some]
    exact hsecond more

theorem Stable.byte : Stable Reader.byte := by
  intro bytes b rest h
  cases bytes with
  | nil => cases h
  | cons c tail =>
    cases h
    exact ⟨[b], rfl, fun more => rfl⟩

/-- A byte may be looked at before it is taken. -/
theorem Stable.peek_bind {α : Type} {f : UInt8 → Reader α} (hf : ∀ b, Stable (f b))
    (htakes : ∀ b, f b [] = none) : Stable (peek >>= f) := by
  intro bytes a rest h
  cases bytes with
  | nil => cases h
  | cons b tail =>
    have hb : f b (b :: tail) = some (a, rest) := h
    obtain ⟨taken, heq, htaken⟩ := hf b _ _ _ hb
    cases taken with
    | nil =>
      have hnone := htaken []
      rw [List.append_nil, htakes b] at hnone
      cases hnone
    | cons c taken =>
      obtain ⟨rfl, rfl⟩ := List.cons.inj heq
      exact ⟨b :: taken, rfl, fun more => htaken more⟩

theorem Stable.little : ∀ n, Stable (Reader.little n)
  | 0 => Stable.pure 0
  | n + 1 => Stable.bind Stable.byte fun _ => Stable.bind (Stable.little n) fun _ => Stable.pure _

theorem Stable.signed (n : Nat) : Stable (Reader.signed n) :=
  Stable.bind (Stable.little n) fun _ => Stable.pure _

end Reader

end KernelOffsets.Encoding

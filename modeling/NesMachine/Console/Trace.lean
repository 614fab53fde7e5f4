import NesMachine.Cpu.Execute

/-!
# Traces

A trace keeps the records of the latest instructions, the newest first. A full trace drops its
oldest record before it takes a new one, and a trace without depth records nothing.

Whether a trace is full is tested by equality. That is enough since no trace ever holds more
records than it is deep: `Bounded` is true at the start and kept by every record.
-/

namespace NesMachine

/-- The latest instructions. -/
structure Trace where
  depth : Nat
  /-- The records, newest first. -/
  steps : List Step
deriving DecidableEq

namespace Trace

/-- A trace of the given depth before the first instruction. -/
def ofDepth (depth : Nat) : Trace := ⟨depth, []⟩

/-- Records an instruction. -/
def record : Trace → Step → Trace
  | ⟨depth, steps⟩, step =>
    if depth = 0 then ⟨depth, steps⟩
    else if steps.length = depth then ⟨depth, step :: steps.dropLast⟩
    else ⟨depth, step :: steps⟩

/-- The newest record. -/
def latest? (trace : Trace) : Option Step := trace.steps.head?

/-- The number of records. -/
def length (trace : Trace) : Nat := trace.steps.length

theorem depth_record (trace : Trace) (step : Step) : (trace.record step).depth = trace.depth := by
  unfold record
  dsimp only
  split
  · rfl
  · split <;> rfl

/-! ### The number of records -/

/-- There are no more records than the trace is deep. -/
def Bounded (trace : Trace) : Prop := trace.length ≤ trace.depth

theorem bounded_ofDepth (depth : Nat) : (ofDepth depth).Bounded := Nat.zero_le depth

/-- In a trace that is bounded, a new record pushes out what would lie beyond the depth, and
nothing else. -/
theorem Bounded.steps_record {trace : Trace} (h : trace.Bounded) (step : Step) :
    (trace.record step).steps = (step :: trace.steps).take trace.depth := by
  obtain ⟨depth, steps⟩ := trace
  have hlength : steps.length ≤ depth := h
  unfold record
  dsimp only
  cases depth with
  | zero =>
    rw [if_pos rfl, List.take_zero]
    exact List.eq_nil_of_length_eq_zero (Nat.le_zero.mp hlength)
  | succ n =>
    rw [if_neg (Nat.succ_ne_zero n), List.take_succ_cons]
    by_cases hfull : steps.length = n + 1
    · rw [if_pos hfull, List.dropLast_eq_take, hfull, Nat.add_sub_cancel]
    · rw [if_neg hfull, List.take_of_length_le (by omega)]

theorem Bounded.record {trace : Trace} (h : trace.Bounded) (step : Step) :
    (trace.record step).Bounded := by
  rw [Bounded, length, h.steps_record, depth_record, List.length_take]
  exact Nat.min_le_left _ _

end Trace

end NesMachine

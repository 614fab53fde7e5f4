/-!
# Interrupt timing

`VblankTimer` counts cycles and fires once a frame's worth has passed. `NmiGate` remembers
the stack pointer from before an interrupt was taken; until the stack has unwound to it the
handler counts as running, and no second interrupt is taken.
-/

namespace NesMachine

/-- Whether the handler of a non-maskable interrupt is running. -/
structure NmiGate where
  inFlight : Bool := false
  /-- The stack pointer when the interrupt was taken. -/
  capturedSp : UInt8 := 0
deriving DecidableEq

namespace NmiGate

/-- Notes that an interrupt is taken with the given stack pointer, before its pushes. -/
def start (_ : NmiGate) (sp : UInt8) : NmiGate := ⟨true, sp⟩

/-- Whether the handler is done once the stack pointer has the given value. -/
def finishes (gate : NmiGate) (sp : UInt8) : Bool := gate.inFlight && sp == gate.capturedSp

/-- Notes the stack pointer after an instruction. -/
def finish (gate : NmiGate) (sp : UInt8) : NmiGate :=
  if gate.finishes sp then { gate with inFlight := false } else gate

theorem inFlight_finish (gate : NmiGate) (sp : UInt8) :
    (gate.finish sp).inFlight = (gate.inFlight && sp != gate.capturedSp) := by
  unfold finish finishes
  cases h : gate.inFlight <;> by_cases hs : sp = gate.capturedSp <;> simp [h, hs]

theorem capturedSp_finish (gate : NmiGate) (sp : UInt8) :
    (gate.finish sp).capturedSp = gate.capturedSp := by
  unfold finish
  split <;> rfl

/-- No handler counts as running if none did or the last one has returned. -/
theorem inFlight_finish_eq_false {gate : NmiGate} {sp : UInt8} :
    (gate.finish sp).inFlight = false ↔ gate.inFlight = false ∨ sp = gate.capturedSp := by
  rw [inFlight_finish]
  cases gate.inFlight <;> simp

/-- A handler goes on running while the stack pointer is not back. -/
theorem finish_eq_running {gate : NmiGate} {sp c : UInt8} :
    gate.finish sp = ⟨true, c⟩ ↔ gate = ⟨true, c⟩ ∧ sp ≠ c := by
  obtain ⟨inFlight, capturedSp⟩ := gate
  unfold finish finishes
  cases inFlight <;> by_cases hs : sp = capturedSp <;> simp [hs]
  intro heq
  subst heq
  exact hs

end NmiGate

/-- The cycles since the last vertical blanking, and how many there are between two. -/
structure VblankTimer where
  elapsed : Nat
  threshold : Nat
deriving DecidableEq

namespace VblankTimer

/-- A timer that has just started. -/
def start (threshold : Nat) : VblankTimer := ⟨0, threshold⟩

/-- Whether the timer fires when the given cycles have passed. -/
def fires (timer : VblankTimer) (cycles : Nat) : Bool := timer.threshold < timer.elapsed + cycles

/-- Counts cycles; a timer that fires starts again from zero. -/
def advance (timer : VblankTimer) (cycles : Nat) : VblankTimer :=
  { timer with elapsed := if timer.fires cycles then 0 else timer.elapsed + cycles }

/-- A timer that does not fire has counted the cycles. -/
theorem advance_of_not_fires {timer : VblankTimer} {cycles : Nat}
    (h : ¬ timer.fires cycles = true) :
    timer.elapsed + cycles ≤ timer.threshold ∧
      timer.advance cycles = ⟨timer.elapsed + cycles, timer.threshold⟩ := by
  have hroom : timer.elapsed + cycles ≤ timer.threshold := by
    rw [fires, decide_eq_true_iff] at h
    omega
  refine ⟨hroom, ?_⟩
  rw [advance, if_neg h]

end VblankTimer

end NesMachine

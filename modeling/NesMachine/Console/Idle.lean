import NesMachine.Console.Basic

/-!
# Running until idle

A program that has nothing left to do parks in a jump to itself. `runUntilIdle` steps the
console until it is parked there. Before each step a clock is read, which tells how many
milliseconds have passed; the run is given up when they reach the console's timeout. The
clock belongs to the monad `m`, so the same run can be given the clock of the world or a
sequence of readings. The explicit bound on the steps makes the run total, and a run that
meets it says so.
-/

namespace NesMachine

namespace Console

/-- The opcode of an absolute jump. -/
def jumpOpcode : UInt8 := 0x4C

/-- Whether the instruction at the program counter is a jump to itself. -/
def isIdle (console : Console) : Bool :=
  let pc := console.cpu.regs.pc
  let target := wordOf (console.bus.peek (pc + 1)) (console.bus.peek (pc + 2))
  console.bus.peek pc == jumpOpcode && target == pc

/-- How a run until idle ends. -/
inductive IdleOutcome where
  /-- The console is idle after this number of steps. -/
  | idle (steps : Nat)
  /-- The time was up after this number of steps. -/
  | timedOut (steps elapsed : Nat)
  /-- A step faulted after this number of successful ones. -/
  | stopped (steps : Nat) (fault : Fault)
  /-- The bound on the steps was met. -/
  | running (steps : Nat)
deriving DecidableEq

/-- Goes on with a run that has made `done` steps. The clock is told the number of readings
before the present one. -/
@[specialize]
def runFrom {m : Type → Type} [Monad m] (clock : Nat → m Nat) :
    Nat → Nat → Console → m (IdleOutcome × Console)
  | 0, done, console =>
    if console.isIdle then return (.idle done, console) else return (.running done, console)
  | bound + 1, done, console =>
    if console.isIdle then
      return (.idle done, console)
    else do
      let elapsed ← clock done
      if console.timeout ≤ elapsed then
        return (.timedOut done elapsed, console)
      else
        match step console with
        | .ok _ console => runFrom clock bound (done + 1) console
        | .error fault console => return (.stopped done fault, console)

theorem runFrom_zero {m : Type → Type} [Monad m] (clock : Nat → m Nat) (done : Nat)
    (console : Console) :
    runFrom clock 0 done console =
      if console.isIdle then return (.idle done, console) else return (.running done, console) := rfl

theorem runFrom_succ {m : Type → Type} [Monad m] (clock : Nat → m Nat) (bound done : Nat)
    (console : Console) :
    runFrom clock (bound + 1) done console =
      if console.isIdle then
        return (.idle done, console)
      else do
        let elapsed ← clock done
        if console.timeout ≤ elapsed then
          return (.timedOut done elapsed, console)
        else
          match step console with
          | .ok _ console => runFrom clock bound (done + 1) console
          | .error fault console => return (.stopped done fault, console) := by
  -- stated as a tactic, so that it is not made a rule for unfolding, which would open `step`
  exact rfl

/-- Steps the console until it is idle, making at most `bound` steps. -/
@[inline]
def runUntilIdle {m : Type → Type} [Monad m] (clock : Nat → m Nat) (bound : Nat)
    (console : Console) : m (IdleOutcome × Console) :=
  runFrom clock bound 0 console

end Console

end NesMachine

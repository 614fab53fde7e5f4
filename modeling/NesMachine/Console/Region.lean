/-!
# Regions and settings

The two television standards differ in the processor's frequency and in the length of a
frame. A frame is 341 times 262 dots of a third of a cycle in the one and 341 times 312 dots
of five sixteenths of a cycle in the other, rounded up to whole cycles.
-/

namespace NesMachine

/-- The television standard of a console. -/
inductive Region where
  | ntsc
  | pal
deriving DecidableEq

namespace Region

/-- The frequency of the processor in cycles per second. -/
def cpuHz : Region → Nat
  | ntsc => 1789773
  | pal => 1662607

/-- The processor cycles of one frame, rounded up. -/
def cyclesPerFrame : Region → Nat
  | ntsc => 29781
  | pal => 33248

/-- The region of a console that names none. -/
def default : Region := ntsc

/-- A frame takes the least number of whole cycles that covers its dots. -/
theorem cyclesPerFrame_eq :
    cyclesPerFrame ntsc = (341 * 262 + 2) / 3 ∧
      cyclesPerFrame pal = (341 * 312 * 5 + 15) / 16 := by
  decide

end Region

/-- What a console keeps when its program is replaced. -/
structure Settings where
  region : Region
  /-- How many executed instructions the trace keeps. -/
  traceDepth : Nat
  /-- How long a program may take to become idle, in milliseconds. -/
  timeout : Nat
deriving DecidableEq

/-- The settings of a console that names none. -/
def Settings.default : Settings := ⟨Region.default, 100, 5000⟩

end NesMachine

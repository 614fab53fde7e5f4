import NesMachine.Memory.Word

/-!
# The video latch

The scroll position and the video address are each written in two halves to one register.
Both registers share one toggle, which tells the halves apart, so a pair begun on one can be
completed on the other.
-/

namespace NesMachine

/-- The toggle and what the two registers hold. -/
structure VideoLatch where
  /-- Whether the next write is a second half. -/
  toggle : Bool := false
  address : UInt16 := 0
  scrollX : UInt8 := 0
  scrollY : UInt8 := 0
deriving DecidableEq

namespace VideoLatch

/-- Writes one half of the scroll position, X before Y. -/
def writeScroll (latch : VideoLatch) (value : UInt8) : VideoLatch :=
  if latch.toggle then { latch with scrollY := value, toggle := false }
  else { latch with scrollX := value, toggle := true }

/-- Writes one half of the video address, the high byte before the low one. -/
def writeAddress (latch : VideoLatch) (value : UInt8) : VideoLatch :=
  if latch.toggle then
    { latch with address := wordOf value (highByte latch.address), toggle := false }
  else { latch with address := wordOf (lowByte latch.address) value, toggle := true }

/-- Moves the video address on. -/
def advance (latch : VideoLatch) (step : UInt16) : VideoLatch :=
  { latch with address := latch.address + step }

theorem toggle_writeScroll (latch : VideoLatch) (value : UInt8) :
    (latch.writeScroll value).toggle = !latch.toggle := by
  unfold writeScroll
  cases h : latch.toggle <;> rfl

theorem toggle_writeAddress (latch : VideoLatch) (value : UInt8) :
    (latch.writeAddress value).toggle = !latch.toggle := by
  unfold writeAddress
  cases h : latch.toggle <;> rfl

end VideoLatch

end NesMachine

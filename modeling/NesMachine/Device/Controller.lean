/-!
# Controllers

A controller has eight buttons, in the order A, B, Select, Start, Up, Down, Left, Right. It
is read one button at a time; after the last comes the first again. Writing a one and then a
zero to its strobe goes back to the first button.
-/

namespace NesMachine

/-- The state of a controller. -/
structure Controller where
  /-- One bit for each button, the first in bit 0. -/
  buttons : UInt8 := 0
  /-- The button that the next read tells. -/
  index : UInt8 := 0
  /-- The strobe bit of the last write. -/
  strobe : UInt8 := 0
deriving DecidableEq

namespace Controller

/-- Presses or releases a button. -/
def setButton (pad : Controller) (button : UInt8) (pressed : Bool) : Controller :=
  if pressed then { pad with buttons := pad.buttons ||| 1 <<< button }
  else { pad with buttons := pad.buttons &&& ~~~(1 <<< button) }

/-- Tells the current button, one for pressed, and goes on to the next. -/
def read (pad : Controller) : UInt8 × Controller :=
  (pad.buttons >>> pad.index &&& 1, { pad with index := (pad.index + 1) % 8 })

/-- Writes to the strobe. -/
def write (pad : Controller) (value : UInt8) : Controller :=
  let strobe := value &&& 1
  if pad.strobe = 1 ∧ strobe = 0 then { pad with index := 0, strobe := strobe }
  else { pad with strobe := strobe }

end Controller

end NesMachine

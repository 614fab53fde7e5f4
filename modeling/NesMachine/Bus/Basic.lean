import NesMachine.Attempt
import NesMachine.Text.Hex

/-!
# Buses

A bus answers reads and takes writes at sixteen-bit addresses. An access may change the
state of the bus, reads included, and it may fail; a failed access keeps the state that it
left behind, so the state stands outside the error. Hosts name addresses by 32-bit numbers,
and `checkAddress` refuses those above `$FFFF`.
-/

namespace NesMachine

/-- The reason why a bus cannot be accessed. -/
inductive BusError where
  /-- No bus has an address with this number. -/
  | addressOutOfRange (address : UInt32)
deriving DecidableEq

/-- The wording of a bus error. -/
def BusError.message : BusError → String
  | .addressOutOfRange address =>
    "address $" ++ String.ofList (Text.hex address.toNat) ++ " is outside $0000-$FFFF"

/-- The sixteen-bit address with the given number. -/
def checkAddress (address : UInt32) : Except BusError UInt16 :=
  if address ≤ 0xFFFF then .ok address.toUInt16 else .error (.addressOutOfRange address)

theorem checkAddress_toUInt32 (a : UInt16) : checkAddress a.toUInt32 = .ok a := by
  have h : a.toUInt32 ≤ 0xFFFF := by
    have := a.toNat_lt
    rw [UInt32.le_iff_toNat_le, UInt16.toNat_toUInt32]
    show a.toNat ≤ 65535
    omega
  simp [checkAddress, h]

/-- The accesses that a bus with states in `β` offers. -/
class Bus (β : Type) where
  /-- Reads the byte at an address. -/
  read : UInt16 → Attempt BusError β UInt8
  /-- Writes a byte to an address. -/
  write : UInt16 → UInt8 → Attempt BusError β Unit

namespace Bus

variable {β : Type} [Bus β]

/-- Reads the byte at an address that a host names by its number. -/
def readAt (address : UInt32) : Attempt BusError β UInt8 :=
  match checkAddress address with
  | .ok a => read a
  | .error e => throw e

/-- Writes a byte to an address that a host names by its number. -/
def writeAt (address : UInt32) (value : UInt8) : Attempt BusError β Unit :=
  match checkAddress address with
  | .ok a => write a value
  | .error e => throw e

end Bus

end NesMachine

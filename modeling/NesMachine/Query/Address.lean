import NesMachine.Text.Numeral

/-!
# Addresses in queries

An address is written in hexadecimal after `0x`, `0X` or a dollar sign, and in decimal
otherwise. The marker is looked for first, so a text that starts with one is never read as
a decimal numeral.
-/

namespace NesMachine

open Text

/-- The address that a text names, if it is one of the sixteen-bit addresses. -/
def parseAddress (text : String) : Option UInt16 :=
  let value :=
    match text.toList with
    | '0' :: 'x' :: digits => numeral 16 65535 digits
    | '0' :: 'X' :: digits => numeral 16 65535 digits
    | '$' :: digits => numeral 16 65535 digits
    | digits => numeral 10 65535 digits
  value.map UInt16.ofNat

end NesMachine

/-!
# Hexadecimal text

Bytes, words and addresses are written in upper-case hexadecimal. `fixedHex` writes a
given number of digits, `hex` writes as many digits as the number needs. Both are lists of
characters.
-/

namespace NesMachine.Text

/-- The upper-case digit of a value below sixteen. -/
def hexDigit (d : Nat) : Char :=
  if d < 10 then Char.ofNat (48 + d) else Char.ofNat (55 + d)

/-- The `n` low hexadecimal digits of a number, most significant first. -/
def fixedHex : Nat → Nat → List Char
  | 0, _ => []
  | n + 1, v => fixedHex n (v / 16) ++ [hexDigit (v % 16)]

/-- All hexadecimal digits of a number, without leading zeros. -/
def hex (v : Nat) : List Char :=
  if v < 16 then [hexDigit v] else hex (v / 16) ++ [hexDigit (v % 16)]

/-- The two digits of a byte. -/
def hexByte (b : UInt8) : String := String.ofList (fixedHex 2 b.toNat)

/-- The four digits of a word. -/
def hexWord (w : UInt16) : String := String.ofList (fixedHex 4 w.toNat)

end NesMachine.Text

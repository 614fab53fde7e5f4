import NesMachine.Query.Named
import NesMachine.Text.Hex
import NesMachine.Text.Json

/-!
# Query answers

The dynamically typed answers to questions about the state of a machine. Bytes, words and
double words are shown as fixed-width hexadecimal numbers, counts in decimal, and a record
shows its named parts in the order of their names. Each answer also has a JSON value, in
which all numbers are plain.
-/

namespace NesMachine

open Text

/-- An answer to a query. -/
inductive Value where
  | bool (value : Bool)
  | byte (value : UInt8)
  | word (value : UInt16)
  | dword (value : UInt32)
  | count (value : Nat)
  | text (value : String)
  /-- Named parts, kept in ascending order of their names. -/
  | record (parts : List (String × Value))

namespace Value

/-- A record of the given parts; of two parts with one name the later counts. -/
def ofParts (parts : List (String × Value)) : Value := .record (sortNamed parts)

/-- A hexadecimal number of fixed width with its marker. -/
def markedHex (width n : Nat) : String := String.ofList ('0' :: 'x' :: fixedHex width n)

mutual

/-- The answer as it is shown to a reader. -/
def render : Value → String
  | .bool b => if b then "true" else "false"
  | .byte b => markedHex 2 b.toNat
  | .word w => markedHex 4 w.toNat
  | .dword d => markedHex 8 d.toNat
  | .count n => toString n
  | .text t => t
  | .record parts => "\x7b" ++ ", ".intercalate (renderParts parts) ++ "\x7d"

/-- Each named part of a record as it is shown to a reader. -/
def renderParts : List (String × Value) → List String
  | [] => []
  | (name, value) :: parts => (name ++ ": " ++ render value) :: renderParts parts

end

mutual

/-- The answer as a JSON value. -/
def toJson : Value → Json
  | .bool b => .bool b
  | .byte b => .number b.toNat
  | .word w => .number w.toNat
  | .dword d => .number d.toNat
  | .count n => .number n
  | .text t => .string t
  | .record parts => .object (partsToJson parts)

/-- Each named part of a record as a field of a JSON object. -/
def partsToJson : List (String × Value) → List (String × Json)
  | [] => []
  | (name, value) :: parts => (name, toJson value) :: partsToJson parts

end

end Value

end NesMachine

import NesMachine.Text.Hex

/-!
# JSON text

A JSON value without fractional numbers, and its two written forms. The compact form has no
blanks. The pretty form puts each item of a non-empty array or object on its own line, two
spaces deeper than the brackets, and writes empty ones as `[]` and as a pair of braces. The
fields of an object are written in the order given. Only the quotation mark, the backslash
and the control characters below U+0020 are escaped.
-/

namespace NesMachine.Text

/-- A JSON value whose numbers are natural numbers. -/
inductive Json where
  | null
  | bool (value : Bool)
  | number (value : Nat)
  | string (value : String)
  | array (items : List Json)
  | object (fields : List (String × Json))

namespace Json

/-! ### Strings -/

/-- The characters that stand for one character inside a JSON string. -/
def escape (c : Char) : List Char :=
  match c with
  | '"' => ['\\', '"']
  | '\\' => ['\\', '\\']
  | '\x08' => ['\\', 'b']
  | '\t' => ['\\', 't']
  | '\n' => ['\\', 'n']
  | '\x0c' => ['\\', 'f']
  | '\r' => ['\\', 'r']
  | c =>
    if c.toNat < 32 then
      ['\\', 'u'] ++ (fixedHex 4 c.toNat).map Char.toLower
    else [c]

/-- A JSON string literal. -/
def quote (text : String) : String :=
  String.ofList ('"' :: text.toList.flatMap escape ++ ['"'])

/-! ### The compact form -/

mutual

/-- The value without any blanks. -/
def compact : Json → String
  | .null => "null"
  | .bool b => if b then "true" else "false"
  | .number n => toString n
  | .string s => quote s
  | .array items => "[" ++ ",".intercalate (compactItems items) ++ "]"
  | .object fields => "\x7b" ++ ",".intercalate (compactFields fields) ++ "\x7d"

/-- Each item of an array without any blanks. -/
def compactItems : List Json → List String
  | [] => []
  | item :: items => compact item :: compactItems items

/-- Each field of an object without any blanks. -/
def compactFields : List (String × Json) → List String
  | [] => []
  | (name, value) :: fields => (quote name ++ ":" ++ compact value) :: compactFields fields

end

/-! ### The pretty form -/

/-- A line break followed by the indentation of a nesting depth. -/
def newline (depth : Nat) : String := String.ofList ('\n' :: List.replicate (2 * depth) ' ')

/-- Written parts on lines of their own between two brackets. -/
def bracketed (depth : Nat) (opening closing : String) : List String → String
  | [] => opening ++ closing
  | parts =>
    opening ++ newline (depth + 1) ++ ("," ++ newline (depth + 1)).intercalate parts
      ++ newline depth ++ closing

mutual

/-- The value with each item on a line of its own, at a nesting depth. -/
def prettyAt (depth : Nat) : Json → String
  | .null => "null"
  | .bool b => if b then "true" else "false"
  | .number n => toString n
  | .string s => quote s
  | .array items => bracketed depth "[" "]" (prettyItems (depth + 1) items)
  | .object fields => bracketed depth "\x7b" "\x7d" (prettyFields (depth + 1) fields)

/-- Each item of an array at its nesting depth. -/
def prettyItems (depth : Nat) : List Json → List String
  | [] => []
  | item :: items => prettyAt depth item :: prettyItems depth items

/-- Each field of an object at its nesting depth. -/
def prettyFields (depth : Nat) : List (String × Json) → List String
  | [] => []
  | (name, value) :: fields =>
    (quote name ++ ": " ++ prettyAt depth value) :: prettyFields depth fields

end

/-- The value with each item on a line of its own. -/
def pretty (value : Json) : String := prettyAt 0 value

end Json

end NesMachine.Text

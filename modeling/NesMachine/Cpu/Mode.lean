/-!
# Addressing modes

The thirteen ways in which an instruction names its operand, with their names in listings
and the number of bytes that follow the opcode.
-/

namespace NesMachine

/-- How an instruction names its operand. -/
inductive Mode where
  | implicit
  | accumulator
  | immediate
  | zeroPage
  | zeroPageX
  | zeroPageY
  | relative
  | absolute
  | absoluteX
  | absoluteY
  | indirect
  | indexedIndirect
  | indirectIndexed
deriving DecidableEq

namespace Mode

/-- The name of a mode in listings and messages. -/
def name : Mode → String
  | implicit => "implicit"
  | accumulator => "accumulator"
  | immediate => "immediate"
  | zeroPage => "zeropage"
  | zeroPageX => "zeropage,X"
  | zeroPageY => "zeropage,Y"
  | relative => "relative"
  | absolute => "absolute"
  | absoluteX => "absolute,X"
  | absoluteY => "absolute,Y"
  | indirect => "indirect"
  | indexedIndirect => "(indirect,X)"
  | indirectIndexed => "(indirect),Y"

/-- The number of operand bytes after the opcode. -/
def operandLength : Mode → UInt16
  | implicit | accumulator => 0
  | immediate | zeroPage | zeroPageX | zeroPageY | relative | indexedIndirect
  | indirectIndexed => 1
  | absolute | absoluteX | absoluteY | indirect => 2

/-- Every mode. -/
def all : List Mode :=
  [implicit, accumulator, immediate, zeroPage, zeroPageX, zeroPageY, relative, absolute,
    absoluteX, absoluteY, indirect, indexedIndirect, indirectIndexed]

theorem mem_all (mode : Mode) : mode ∈ all := by
  cases mode <;> decide

/-- The mode with the given name. -/
def ofName? (text : String) : Option Mode := all.find? fun mode => mode.name == text

end Mode

end NesMachine

import NesMachine.Cpu.Board
import NesMachine.Query.Value

/-!
# Queries about the processor

The registers, the cycle total and the flags by their names.
-/

namespace NesMachine

namespace Cpu

/-- The names of the flags with their masks. -/
def flagNames : List (String × UInt8) :=
  [("c", Flag.carry), ("z", Flag.zero), ("i", Flag.interruptDisable), ("d", Flag.decimal),
    ("b", Flag.breakMark), ("v", Flag.overflow), ("n", Flag.negative)]

/-- Each flag under its name. -/
def flags (cpu : Cpu) : Value :=
  .ofParts (flagNames.map fun flag => (flag.1, .bool (cpu.regs.p.has flag.2)))

/-- The path of a flag. -/
def flagPath (name : String) : String := "flags." ++ name

/-- The answers by their paths. -/
def answers (cpu : Cpu) : List (String × Value) :=
  [("pc", .word cpu.regs.pc), ("a", .byte cpu.regs.a), ("x", .byte cpu.regs.x),
    ("y", .byte cpu.regs.y), ("s", .byte cpu.regs.s), ("p", .byte cpu.regs.p.byte),
    ("cycles", .count cpu.cycles), ("flags", cpu.flags)]
  ++ flagNames.map fun flag => (flagPath flag.1, .bool (cpu.regs.p.has flag.2))

/-- The answer to a query, if the path is one of the known ones. -/
def query (cpu : Cpu) (path : String) : Option Value := cpu.answers.lookup path

/-- The known paths. -/
def queryPaths : List String :=
  ["pc", "a", "x", "y", "s", "p", "cycles", "flags"] ++ flagNames.map fun flag => flagPath flag.1

theorem map_fst_answers (cpu : Cpu) : cpu.answers.map Prod.fst = queryPaths := by
  simp [answers, queryPaths]

end Cpu

end NesMachine

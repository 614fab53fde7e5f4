import NesMachine.CommandLine.Options
import NesMachine.Console.Query

/-!
# Reports

What a session tells about the console at its end: how far it got, the registers, the latest
instructions, and the answers to the queries in the order of their paths. A report is
written as plain lines or as JSON.
-/

namespace NesMachine

open Text

/-- The final state of a console as a session reports it. -/
structure Report where
  instructions : Nat
  cycles : Nat
  registers : List (String × Value)
  /-- The latest instructions, newest first. -/
  trace : List String
  /-- The queries with their answers; an unknown path has none. -/
  queries : List (String × Option Value)

namespace Report

/-- The report on a console after the given number of instructions. -/
def ofConsole (console : Console) (options : Options) (instructions : Nat) : Report where
  instructions := instructions
  cycles := console.cpu.cycles
  registers := sortNamed (["pc", "a", "x", "y", "s", "p"].filterMap fun name =>
    (console.query name).map fun value => (name, value))
  trace := (console.trace.steps.take options.trace).map Step.render
  queries := sortNamed (options.queries.map fun path => (path, console.query path))

/-- The line for a query. -/
def queryLine (path : String) : Option Value → String
  | some value => path ++ " = " ++ value.render
  | none => path ++ " = <unknown path>"

/-- The report as lines. -/
def lines (report : Report) : List String :=
  [toString report.instructions ++ " instructions, " ++ toString report.cycles ++ " cycles",
    " ".intercalate (report.registers.map fun reg => reg.1.toUpper ++ "=" ++ reg.2.render)]
  ++ (if report.trace.isEmpty then []
      else "Trace (newest first):" :: report.trace.map fun line => "  " ++ line)
  ++ report.queries.map fun query => queryLine query.1 query.2

/-- The report as plain text. -/
def render (report : Report) : String := String.join (report.lines.map (· ++ "\n"))

/-- The report as a JSON value. -/
def toJson (report : Report) : Json :=
  .object [
    ("instructions", .number report.instructions),
    ("cycles", .number report.cycles),
    ("registers", .object (report.registers.map fun reg => (reg.1, reg.2.toJson))),
    ("trace", .array (report.trace.map .string)),
    ("queries", .object (report.queries.map fun query =>
      (query.1, match query.2 with
        | some value => value.toJson
        | none => .null)))]

end Report

end NesMachine

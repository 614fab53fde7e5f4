import NesMachine.Console.Region
import NesMachine.Text.Numeral

/-!
# Command line options

Options are read from left to right. A long option takes its value after an equals sign or
from the next argument, a short one also directly behind its letter. The next argument is
not taken for a value if it starts with a dash, unless it is a single dash. Every option but
the query may be given once, marks take no value, and nothing else is accepted, except for
two dashes at the very end. The image file is required.
-/

namespace NesMachine

open Text

/-- The options by their meaning. -/
inductive OptionKind where
  | rom
  | region
  | ticks
  | timeout
  | reset
  | trace
  | query
  | json
  | help
deriving DecidableEq

namespace OptionKind

/-- The option with the given long name. -/
def ofLong? : String → Option OptionKind
  | "rom" => some rom
  | "region" => some region
  | "ticks" => some ticks
  | "timeout-ms" => some timeout
  | "reset" => some reset
  | "trace" => some trace
  | "query" => some query
  | "json" => some json
  | "help" => some help
  | _ => none

/-- The option with the given letter. -/
def ofShort? : Char → Option OptionKind
  | 'r' => some rom
  | 't' => some ticks
  | 'q' => some query
  | 'h' => some help
  | _ => none

/-- Whether the option stands for itself and takes no value. -/
def isMark : OptionKind → Bool
  | reset | json | help => true
  | _ => false

end OptionKind

/-- What one argument says. -/
inductive Argument where
  /-- An option, with its value if that is attached. -/
  | option (kind : OptionKind) (value : Option String)
  /-- Two dashes. -/
  | endMark
  /-- Anything else. -/
  | unknown
deriving DecidableEq

namespace Argument

/-- A long option: its name up to the first equals sign, and what follows the sign. -/
def ofLong (text : List Char) : Argument :=
  let name := String.ofList (text.takeWhile (· != '='))
  let value :=
    match text.dropWhile (· != '=') with
    | [] => none
    | _ :: rest => some (String.ofList rest)
  match OptionKind.ofLong? name with
  | some kind => if kind.isMark && value.isSome then unknown else option kind value
  | none => unknown

/-- A short option: its letter, and what follows the letter and at most one equals sign. -/
def ofShort (letter : Char) (rest : List Char) : Argument :=
  match OptionKind.ofShort? letter with
  | some kind =>
    if kind.isMark then option kind none
    else
      match rest with
      | [] => option kind none
      | '=' :: value => option kind (some (String.ofList value))
      | value => option kind (some (String.ofList value))
  | none => unknown

/-- Reads one argument. -/
def read (text : String) : Argument :=
  match text.toList with
  | ['-', '-'] => endMark
  | '-' :: '-' :: rest => ofLong rest
  | '-' :: letter :: rest => ofShort letter rest
  | _ => unknown

/-- Whether an argument may be the value of the option before it. -/
def isValue (text : String) : Bool :=
  match text.toList with
  | ['-'] => true
  | '-' :: _ => false
  | _ => true

end Argument

/-- The options of a session. -/
structure Options where
  /-- The image file. -/
  rom : String
  region : Region
  /-- How many steps to make, instead of running until idle. -/
  ticks : Option Nat
  /-- How long the program may take to become idle, in milliseconds. -/
  timeout : Nat
  /-- Whether to start from the reset vector. -/
  reset : Bool
  /-- How many entries of the trace to print. -/
  trace : Nat
  /-- The paths to answer. -/
  queries : List String
  /-- Whether to report in JSON. -/
  json : Bool
deriving DecidableEq

/-- The options given so far. -/
structure PartialOptions where
  rom : Option String := none
  region : Option Region := none
  ticks : Option Nat := none
  timeout : Option Nat := none
  reset : Bool := false
  trace : Option Nat := none
  queries : List String := []
  json : Bool := false

namespace PartialOptions

/-- The value of an option that is given for the first time. -/
def once {α : Type} (old new : Option α) : Option (Option α) :=
  if old.isSome || new.isNone then none else some new

/-- A number below 2^64 in decimal. -/
def readNumber (text : String) : Option Nat := numeral 10 0xFFFFFFFFFFFFFFFF text.toList

/-- A region by its name. -/
def readRegion (text : String) : Option Region :=
  if text = "ntsc" then some .ntsc else if text = "pal" then some .pal else none

/-- A file name, which is not empty. -/
def readFile (text : String) : Option String := if text = "" then none else some text

/-- Takes an option with its value, unless the value is wrong or was given before. -/
def assign (given : PartialOptions) (kind : OptionKind) (value : String) :
    Option PartialOptions :=
  match kind with
  | .rom => (once given.rom (readFile value)).map fun v => { given with rom := v }
  | .region => (once given.region (readRegion value)).map fun v => { given with region := v }
  | .ticks => (once given.ticks (readNumber value)).map fun v => { given with ticks := v }
  | .timeout => (once given.timeout (readNumber value)).map fun v => { given with timeout := v }
  | .trace => (once given.trace (readNumber value)).map fun v => { given with trace := v }
  | .query => some { given with queries := given.queries ++ [value] }
  | .reset | .json | .help => none

/-- Takes a mark, unless it was given before. -/
def mark (given : PartialOptions) (kind : OptionKind) : Option PartialOptions :=
  match kind with
  | .reset => if given.reset then none else some { given with reset := true }
  | .json => if given.json then none else some { given with json := true }
  | _ => none

end PartialOptions

/-- What the arguments ask for. -/
inductive Request where
  | run (options : Options)
  | help
  | rejected
deriving DecidableEq

namespace Request

/-- The options, with the values of those that were not given. -/
def ofOptions (given : PartialOptions) : Request :=
  match given.rom with
  | some rom =>
    .run {
      rom := rom
      region := given.region.getD Region.default
      ticks := given.ticks
      timeout := given.timeout.getD Settings.default.timeout
      reset := given.reset
      trace := given.trace.getD 10
      queries := given.queries
      json := given.json }
  | none => .rejected

/-- Reads the arguments that follow those already taken. -/
def readFrom (given : PartialOptions) : List String → Request
  | [] => ofOptions given
  | arg :: rest =>
    match Argument.read arg with
    | .unknown => .rejected
    | .endMark => if rest.isEmpty then ofOptions given else .rejected
    | .option .help _ => .help
    | .option kind (some value) =>
      match given.assign kind value with
      | some given => readFrom given rest
      | none => .rejected
    | .option kind none =>
      if kind.isMark then
        match given.mark kind with
        | some given => readFrom given rest
        | none => .rejected
      else
        match rest with
        | [] => .rejected
        | value :: rest =>
          if Argument.isValue value then
            match given.assign kind value with
            | some given => readFrom given rest
            | none => .rejected
          else .rejected

/-- Reads the arguments of the command line. -/
def ofArguments (args : List String) : Request := readFrom {} args

end Request

end NesMachine

import NesMachine.CommandLine.Report
import NesMachine.Console.Idle
import NesMachine.Files.Error

/-!
# Sessions

A session loads an image, lets the console start from its reset vector if asked to, runs it
for a number of steps or until it is idle, and reports. Whatever goes wrong on the way ends
it with a message.
-/

namespace NesMachine

/-- Why a session ends without a report. -/
inductive SessionError where
  /-- The image file cannot be read. -/
  | file (error : FileError)
  | cartridge (error : CartridgeError)
  | fault (cause : Fault)
  /-- The program did not become idle in time. -/
  | timedOut (instructions elapsed : Nat)

/-- The wording of a session's error. -/
def SessionError.message : SessionError → String
  | .file error => "I/O error: " ++ error.message
  | .cartridge error => error.message
  | .fault cause => cause.message
  | .timedOut instructions elapsed =>
    "no idle loop after " ++ toString instructions ++ " instructions (" ++ toString elapsed
      ++ "ms)"

/-- What a session prints, and its exit code. -/
structure SessionOutput where
  exitCode : Nat
  stdout : String
  stderr : String
deriving DecidableEq

namespace Session

/-- The console that the options ask for. -/
def settings (options : Options) : Settings :=
  { Settings.default with region := options.region, timeout := options.timeout }

/-- Runs a console as the options ask, and tells the number of instructions. -/
@[specialize]
def drive {m : Type → Type} [Monad m] (clock : Nat → m Nat) (bound : Nat) (options : Options)
    (console : Console) : m (Except SessionError (Nat × Console)) :=
  match options.ticks with
  | some ticks =>
    match Console.steps ticks console with
    | .ok () console => return .ok (ticks, console)
    | .error fault _ => return .error (.fault fault)
  | none => do
    let (outcome, console) ← console.runUntilIdle clock bound
    match outcome with
    | .idle count => return .ok (count, console)
    | .timedOut count elapsed => return .error (.timedOut count elapsed)
    | .stopped _ fault => return .error (.fault fault)
    | .running count => return .error (.timedOut count console.timeout)

/-- Starts a console as the options ask. -/
def start (options : Options) (console : Console) : Except SessionError Console :=
  if options.reset then
    match Console.reset console with
    | .ok () console => .ok console
    | .error fault _ => .error (.fault fault)
  else .ok console

/-- The output of a session that fails after the given messages. -/
def failure (messages : String) (error : SessionError) : SessionOutput :=
  ⟨1, "", messages ++ "Error: " ++ error.message ++ "\n"⟩

/-- The message that an image is loaded. -/
def loaded (options : Options) : String := "Loaded ROM: " ++ options.rom ++ "\n"

/-- The output of a session that ends with a report. -/
def success (options : Options) (report : Report) : SessionOutput :=
  ⟨0, if options.json then report.toJson.pretty ++ "\n" else report.render, loaded options⟩

@[simp]
theorem failure_exitCode (messages : String) (error : SessionError) :
    (failure messages error).exitCode = 1 := rfl

@[simp]
theorem success_exitCode (options : Options) (report : Report) :
    (success options report).exitCode = 0 := rfl

/-- Runs a session on the content of the image file, or on the reason why there is none. -/
@[specialize]
def run {m : Type → Type} [Monad m] (clock : Nat → m Nat) (bound : Nat) (options : Options)
    (file : Except FileError Image) : m SessionOutput :=
  match file with
  | .error error => return failure "" (.file error)
  | .ok image =>
    match Console.ofImage (settings options) image with
    | .error error => return failure "" (.cartridge error)
    | .ok console =>
      match start options console with
      | .error error => return failure (loaded options) error
      | .ok console => do
        match ← drive clock bound options console with
        | .error error => return failure (loaded options) error
        | .ok (instructions, console) =>
          return success options (.ofConsole console options instructions)

end Session

end NesMachine

import NesMachine.CommandLine.Program

/-!
# The program in its system

Lets the program read the files and the clock of the system, and prints its output.
-/

namespace NesMachine

/-- The most steps that a run until idle makes; no clock lets it get there. -/
def stepBound : Nat := 0x4000000000000000

/-- A reason by the system's number for it, which sometimes arrives negated. -/
def systemError (code : UInt32) (details : String) : FileError :=
  let number := if code < 0x80000000 then code else 0 - code
  .ofNumber details number.toNat

/-- The reason of a failed file access. -/
def fileError (error : IO.Error) : FileError :=
  match error with
  | .noFileOrDirectory _ code details => systemError code details
  | .permissionDenied _ code details => systemError code details
  | .inappropriateType _ code details => systemError code details
  | .invalidArgument _ code details => systemError code details
  | .resourceExhausted _ code details => systemError code details
  | .hardwareFault code details => systemError code details
  | .otherError code details => systemError code details
  | error => .other (toString error) 0

/-- The content of a file, or the reason why it cannot be read. -/
def readImage (path : String) : IO (Except FileError Image) := do
  try
    let bytes ← IO.FS.readBinFile path
    return .ok bytes.data
  catch error =>
    return .error (fileError error)

/-- A clock that shows the milliseconds since it was started. -/
def startClock : IO (Nat → IO Nat) := do
  let start ← IO.monoMsNow
  return fun _ => return (← IO.monoMsNow) - start

end NesMachine

open NesMachine

/-- Runs the program. -/
def main (args : List String) : IO UInt32 := do
  let output ← Program.run readImage startClock stepBound args
  IO.eprint output.stderr
  IO.print output.stdout
  return output.exitCode.toUInt32

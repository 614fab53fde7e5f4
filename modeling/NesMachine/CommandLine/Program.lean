import NesMachine.CommandLine.Session

/-!
# The program

The arguments ask for a session, for help, or for nothing that can be understood. The program
answers each of them with an exit code and with what it prints. How a file is read and what
the clock shows belong to the monad `m`, so the same program can be given the files of the
world or those of a volume.
-/

namespace NesMachine

namespace Program

/-- How the program is called. -/
def usage : String :=
  "Usage: nes-machine --rom FILE [--region ntsc|pal] [--ticks N] [--timeout-ms N] [--reset]\n"
    ++ "                   [--trace N] [--query PATH]... [--json]\n"

/-- Does what the arguments ask for. The clock is started when the image file has been read. -/
@[specialize]
def run {m : Type → Type} [Monad m] (read : String → m (Except FileError Image))
    (startClock : m (Nat → m Nat)) (bound : Nat) (args : List String) : m SessionOutput :=
  match Request.ofArguments args with
  | .rejected => return ⟨2, "", usage⟩
  | .help => return ⟨0, usage, ""⟩
  | .run options => do
    let file ← read options.rom
    let clock ← startClock
    Session.run clock bound options file

end Program

end NesMachine

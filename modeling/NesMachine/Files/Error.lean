/-!
# File errors

The reasons why a file cannot be read, with the wording and the number that a Unix system
gives to each. The numbers of the named reasons differ, so a number tells its reason back.
-/

namespace NesMachine

/-- Why a file cannot be read. -/
inductive FileError where
  /-- Nothing stands at the path. -/
  | missing
  /-- Access is not allowed. -/
  | notAllowed
  /-- The path goes on behind a name that is not a folder's. -/
  | notFolder
  /-- The path leads to a folder. -/
  | isFolder
  /-- The path or one of its names is longer than a volume takes. -/
  | nameTooLong
  /-- The path leads through too many symbolic links. -/
  | tooManyLinks
  /-- A reason of the system's own, with its number. -/
  | other (reason : String) (number : Nat)
deriving DecidableEq

namespace FileError

/-- The number of a reason. -/
def number : FileError → Nat
  | missing => 2
  | notAllowed => 13
  | notFolder => 20
  | isFolder => 21
  | nameTooLong => 36
  | tooManyLinks => 40
  | other _ number => number

/-- The wording of a reason. -/
def reason : FileError → String
  | missing => "No such file or directory"
  | notAllowed => "Permission denied"
  | notFolder => "Not a directory"
  | isFolder => "Is a directory"
  | nameTooLong => "File name too long"
  | tooManyLinks => "Too many levels of symbolic links"
  | other reason _ => reason

/-- The reason with the given number; the words are used where the number says nothing. -/
def ofNumber (reason : String) : Nat → FileError
  | 2 => missing
  | 13 => notAllowed
  | 20 => notFolder
  | 21 => isFolder
  | 36 => nameTooLong
  | 40 => tooManyLinks
  | number => other reason number

/-- The reason as a message shows it. -/
def message (error : FileError) : String :=
  error.reason ++ " (os error " ++ toString error.number ++ ")"

end FileError

end NesMachine

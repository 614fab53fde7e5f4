import NesMachine.Cartridge.Header
import NesMachine.Files.Error

/-!
# Volumes

A volume holds files in nested folders, and a path leads from the root or from the working
folder to one of them. It stands for the files of a system: it tells what the program finds
at a path where there is no system around it.
Paths are read name by name: an empty name and a single dot stay in the folder, two dots go
to the folder around it, which for the root is the root itself, and any other name enters
what has this name. Every name is looked up in a folder, so nothing follows the name of a
file, not even a slash.
-/

namespace NesMachine

/-- What stands at a place of a volume. -/
inductive VolumeEntry where
  | folder
  | file (content : Image)
deriving DecidableEq

/-- A place of a volume: the names that lead to it from the root, the last one first. -/
abbrev Place := List String

/-- Files and folders by their places. -/
structure Volume where
  entries : List (Place × VolumeEntry)
  /-- The folder from which paths without a leading slash start. -/
  workingFolder : Place

namespace Volume

/-! ### Names -/

/-- The most bytes of a name. -/
def nameLimit : Nat := 255

/-- The most bytes of a path. -/
def pathLimit : Nat := 4095

/-- The names between the slashes of a path, empty ones included. -/
def splitNames : List Char → List (List Char)
  | [] => [[]]
  | c :: cs =>
    if c = '/' then [] :: splitNames cs
    else
      match splitNames cs with
      | [] => [[c]]
      | name :: names => (c :: name) :: names

/-- The names of a path. -/
def names (path : String) : List String := (splitNames path.toList).map String.ofList

/-- The place that a path without dots names, seen from the root. -/
def placeOf (path : String) : Place := ((names path).filter (· ≠ "")).reverse

/-! ### Places -/

/-- What stands at a place. The root is always a folder. -/
def entry? (volume : Volume) : Place → Option VolumeEntry
  | [] => some .folder
  | place => volume.entries.lookup place

/-- Follows one name from a place. -/
def enter (volume : Volume) (place : Place) (name : String) : Except FileError Place :=
  match volume.entry? place with
  | some .folder =>
    if name = "" ∨ name = "." then .ok place
    else if name = ".." then .ok place.tail
    else if nameLimit < name.utf8ByteSize then .error .nameTooLong
    else if (volume.entry? (name :: place)).isSome then .ok (name :: place)
    else .error .missing
  | some (.file _) => .error .notFolder
  | none => .error .missing

/-- Follows names one after the other. -/
def follow (volume : Volume) : Place → List String → Except FileError Place
  | place, [] => .ok place
  | place, name :: names =>
    match volume.enter place name with
    | .ok place => follow volume place names
    | .error e => .error e

/-- Where a path starts. -/
def start (volume : Volume) (path : String) : Place :=
  if path.toList.head? = some '/' then [] else volume.workingFolder

/-- The place that a path leads to. -/
def locate (volume : Volume) (path : String) : Except FileError Place :=
  if path = "" then .error .missing
  else if pathLimit < path.utf8ByteSize then .error .nameTooLong
  else volume.follow (volume.start path) (names path)

/-- The content of the file that a path leads to. -/
def read (volume : Volume) (path : String) : Except FileError Image :=
  match volume.locate path with
  | .ok place =>
    match volume.entry? place with
    | some (.file content) => .ok content
    | some .folder => .error .isFolder
    | none => .error .missing
  | .error e => .error e

end Volume

end NesMachine

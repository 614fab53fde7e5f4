/-!
# Named entries

Lists of entries that are kept in ascending order of their names, with at most one entry for
each name. An entry that is put in again takes the place of the older one.
-/

namespace NesMachine

/-- Puts an entry into its place, replacing one of the same name. -/
def insertNamed {α : Type} (name : String) (value : α) : List (String × α) → List (String × α)
  | [] => [(name, value)]
  | (other, old) :: rest =>
    if name < other then (name, value) :: (other, old) :: rest
    else if name = other then (name, value) :: rest
    else (other, old) :: insertNamed name value rest

/-- The given entries in order; of two with one name the later counts. -/
def sortNamed {α : Type} (entries : List (String × α)) : List (String × α) :=
  entries.foldl (fun sorted entry => insertNamed entry.1 entry.2 sorted) []

end NesMachine

import DirectoryExchange.Pieces

/-!
# Paths

A path is a text in which slashes separate the names on the way to a file.  Names that are empty or
a single dot are no step of the way.
-/

namespace DirectoryExchange.Path

/-- The name of the directory that a directory lies in. -/
def parent : List Char := ['.', '.']

/-- The names on the way. -/
def steps (path : String) : List (List Char) :=
  (pieces (· == '/') path.toList).filter fun segment => segment != [] && segment != ['.']

/-- The name of the file at the end of the way. -/
def fileName? (path : String) : Option (List Char) :=
  (steps path).getLast?.filter fun name => name != parent

/-- What stands behind the last dot of a file's name, unless the name begins with this dot. -/
def extension? (path : String) : Option String :=
  match fileName? path with
  | none => none
  | some name =>
    let backwards := name.reverse
    match backwards.dropWhile (· != '.') with
    | _ :: _ :: _ => some (String.ofList (backwards.takeWhile (· != '.')).reverse)
    | _ => none

end DirectoryExchange.Path

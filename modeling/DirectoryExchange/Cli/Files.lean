import DirectoryExchange.Path
import DirectoryExchange.Stream
import DirectoryExchange.Text.Utf8

/-!
# Files

The files of a directory in which the program runs, by their names.  A path that stays in the
directory leads to one of them or to the directory itself.  A path that leaves it leads to a
directory if it does so wherever the program runs, or to a new file beside the directory, or to the
null device, or nowhere.
-/

namespace DirectoryExchange.Cli

/-- The files of a directory. -/
structure Files where
  /-- What is in each file. -/
  contents : List (String × Bytes)
  deriving DecidableEq, Repr

namespace Files

/-- Where a path leads. -/
inductive Place where
  /-- To a file of that name, which need not be there. -/
  | file (name : String)
  /-- To a directory. -/
  | directory
  /-- To a file beside the directory, which is not there yet. -/
  | beside
  /-- To the device that holds nothing and drops what it is given. -/
  | nullDevice
  /-- Far out of the directory, or through something that is no directory. -/
  | nowhere
  deriving DecidableEq, Repr

/-- A name has at most this many octets. -/
def longestName : Nat := 255

/-- A path has at most this many octets. -/
def longestPath : Nat := 4095

/-- The names on the way to the null device. -/
def nullDevice : List (List Char) := ["dev".toList, "null".toList]

/-- Whether the name is too long for a file. -/
def isTooLong (name : List Char) : Bool := longestName < (Utf8.encodeChars name).length

/-- Where the path leads.  Behind the name of a file nothing may follow, and in front of it only
steps that lead nowhere else. -/
def place (path : String) : Place :=
  let segments := pieces (· == '/') path.toList
  let steps := Path.steps path
  if longestPath < (Utf8.encode path).length || steps.any isTooLong then .nowhere
  else if steps.all (· == Path.parent) then .directory
  else if segments.head? = some [] then
    if steps = nullDevice ∧ segments.getLast? = some "null".toList then .nullDevice else .nowhere
  else
    match steps with
    | [name] => if segments.getLast? = some name then .file (String.ofList name) else .nowhere
    | [above, name] =>
      if above = Path.parent ∧ segments.getLast? = some name then .beside else .nowhere
    | _ => .nowhere

/-- How reading a directory fails. -/
def isDirectory : StreamError := ⟨"Is a directory (os error 21)"⟩

/-- The source at the path, if it can be opened. -/
def open? (files : Files) (path : String) : Option Source :=
  match place path with
  | .file name => (files.contents.lookup name).map fun octets => { bytes := octets }
  | .directory => some { bytes := [], failure := some isDirectory }
  | .nullDevice => some { bytes := [] }
  | .beside => none
  | .nowhere => none

/-- The contents with those of one file. -/
def putInto (name : String) (octets : Bytes) : List (String × Bytes) → List (String × Bytes)
  | [] => [(name, octets)]
  | (other, held) :: rest =>
    if other = name then (name, octets) :: rest else (other, held) :: putInto name octets rest

/-- The files with one that holds the octets. -/
def put (files : Files) (name : String) (octets : Bytes) : Files :=
  ⟨putInto name octets files.contents⟩

/-- The files behind the writing of the octets to the path, if a file can be created there. -/
def write? (files : Files) (path : String) (octets : Bytes) : Option Files :=
  match place path with
  | .file name => some (files.put name octets)
  | .beside => some files
  | .nullDevice => some files
  | .directory => none
  | .nowhere => none

end Files

end DirectoryExchange.Cli

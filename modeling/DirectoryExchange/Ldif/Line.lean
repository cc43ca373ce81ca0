import DirectoryExchange.Stream

/-!
# Lines

The physical lines of a source end with a line feed, before which a carriage return may stand.
The last line may lack its end, unless the stream fails there.  Lines are numbered from 1, and each
knows how many octets of the stream have been taken with it.
-/

namespace DirectoryExchange.Ldif

/-- A line of the source without its end. -/
structure PhysicalLine where
  /-- The number of the line. -/
  number : Nat
  /-- The octets of the line. -/
  text : Bytes
  /-- The number of octets taken from the stream with this line. -/
  position : Nat
  deriving DecidableEq, Repr

/-- The octets in front of each line feed, and those behind the last one. -/
def cutLines : Bytes → List Bytes × Bytes
  | [] => ([], [])
  | b :: rest =>
    let (lines, tail) := cutLines rest
    if b = Bytes.lineFeed then ([] :: lines, tail)
    else
      match lines with
      | [] => ([], b :: tail)
      | line :: lines => ((b :: line) :: lines, tail)

/-- The line without a carriage return at its end. -/
def dropReturn (line : Bytes) : Bytes :=
  if line.getLast? = some Bytes.carriageReturn then line.dropLast else line

/-- The lines, counted on from `number` lines and `position` octets. -/
def countLines (number position : Nat) : List Bytes → List PhysicalLine
  | [] => []
  | line :: rest =>
    let position := position + line.length + 1
    ⟨number + 1, dropReturn line, position⟩ :: countLines (number + 1) position rest

/-- The lines that can be read from the source. -/
def physicalLines (source : Source) : List PhysicalLine :=
  let (lines, tail) := cutLines source.bytes
  let ended := countLines 0 0 lines
  if tail = [] ∨ source.failure.isSome then ended
  else ended ++ [⟨lines.length + 1, dropReturn tail, source.bytes.length⟩]

/-- A line after unfolding, with the number of the physical line on which it begins. -/
structure LogicalLine where
  /-- The number of the first physical line. -/
  number : Nat
  /-- The octets of the line. -/
  text : Bytes
  deriving DecidableEq, Repr

namespace LogicalLine

/-- Where the line is. -/
def location (l : LogicalLine) : Location := .line l.number

/-- Whether the line ends a modification: a hyphen alone, with spaces behind it allowed. -/
def isSeparator (l : LogicalLine) : Bool := Bytes.dropTrailing Bytes.space l.text == [0x2D]

end LogicalLine

/-- The lines between two blank lines, unfolded and without comments. -/
structure RawRecord where
  /-- The logical lines. -/
  lines : List LogicalLine
  /-- The first continuation line with nothing before it to continue. -/
  orphan : Option Nat
  /-- The number of octets taken from the stream with the record. -/
  position : Nat
  deriving DecidableEq, Repr

/-- A record while its lines are gathered. -/
structure Gathering where
  /-- The logical lines so far, the last one first. -/
  newestFirst : List LogicalLine := []
  /-- The first continuation line with nothing before it to continue. -/
  orphan : Option Nat := none
  /-- Whether a continuation line goes on a comment. -/
  inComment : Bool := false
  deriving DecidableEq, Repr

namespace Gathering

/-- Whether there is no record yet. -/
def isEmpty (g : Gathering) : Bool := g.newestFirst.isEmpty && g.orphan.isNone

/-- The record of what was gathered, ended at the position. -/
def record (g : Gathering) (position : Nat) : RawRecord :=
  ⟨g.newestFirst.reverse, g.orphan, position⟩

/-- Takes up a line that is not blank, given by its first octet and the rest. -/
def take (g : Gathering) (number : Nat) (first : UInt8) (rest : Bytes) : Gathering :=
  if first = 0x23 then { g with inComment := true }
  else if first = Bytes.space then
    if g.inComment then g
    else
      match g.newestFirst with
      | line :: older =>
        { g with newestFirst := { line with text := line.text ++ rest } :: older }
      | [] => { g with orphan := g.orphan.or (some number) }
  else
    { g with inComment := false, newestFirst := ⟨number, first :: rest⟩ :: g.newestFirst }

end Gathering

/-- The records of the lines, where `g` has been gathered already.  What is gathered when the lines
are over is a record too, ended at `final`, unless there is no `final`. -/
def gather (final : Option Nat) (g : Gathering) : List PhysicalLine → List RawRecord
  | [] =>
    match final with
    | some position => if g.isEmpty then [] else [g.record position]
    | none => []
  | line :: rest =>
    match line.text with
    | [] =>
      if g.isEmpty then gather final { g with inComment := false } rest
      else g.record line.position :: gather final {} rest
    | first :: more => gather final (g.take line.number first more) rest

/-- The records of the source.  A record that a failing stream leaves open is none. -/
def rawRecords (source : Source) : List RawRecord :=
  gather (if source.failure.isSome then none else some source.bytes.length) {}
    (physicalLines source)

end DirectoryExchange.Ldif

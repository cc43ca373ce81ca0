import DirectoryExchange.Base64
import DirectoryExchange.Ldif.Line
import DirectoryExchange.Log
import DirectoryExchange.Model.Change
import DirectoryExchange.Text.Blank
import DirectoryExchange.Text.Utf8

/-!
# Change records in LDIF

A record is a `dn` line followed by what is to be done with the entry of that name: by the lines of
its attributes, or by a `changetype` line and the lines that this change type has.  A fault is
confined to its record, unless the `dn` line is missing.
-/

namespace DirectoryExchange.Ldif

/-- Why a record cannot be read, with what is told about it. -/
structure Refusal where
  /-- The fault. -/
  error : ParseError
  /-- What is told about it. -/
  events : List LogEvent := []
  deriving DecidableEq, Repr

/-- A fault confined to its record. -/
def refuse (kind : ParseErrorKind) (location : Location) : Refusal :=
  ⟨.recoverable kind location, []⟩

/-- The octet that ends the name on a line. -/
def colon : UInt8 := 0x3A

/-- The mark of a value that is given by reference. -/
def less : UInt8 := 0x3C

/-- Whether the line has that name, in any spelling. -/
def LogicalLine.isNamed (l : LogicalLine) (name : String) : Bool :=
  match Bytes.cutAt? colon l.text with
  | none => false
  | some (before, _) =>
    match Utf8.decode? before with
    | some spelling => sameName spelling name
    | none => false

/-- The octets given in base64 behind the second colon of a line. -/
def decodeValue (location : Location) (encoded : Bytes) : Except Refusal Bytes :=
  match Utf8.decode? (Bytes.trimSpaces encoded) with
  | none => .error (refuse .invalidBase64 location)
  | some text =>
    match Base64.decode? text with
    | some value => .ok value
    | none => .error ⟨.recoverable .invalidBase64 location, [.warn "invalid base64 value"]⟩

/-- The value that the octets behind the colon of a line give. -/
def readValue (location : Location) : Bytes → Except Refusal Bytes
  | [] => .ok []
  | b :: rest =>
    if b = colon then decodeValue location rest
    else if b = less then .error (refuse .unsupportedReference location)
    else if b = Bytes.space then .ok rest
    else .ok (b :: rest)

/-- The name and value of a line. -/
def LogicalLine.split (l : LogicalLine) : Except Refusal (String × Bytes) :=
  match Bytes.cutAt? colon l.text with
  | none => .error (refuse .malformedLine l.location)
  | some (before, behind) =>
    match Utf8.decode? before with
    | none => .error (refuse .invalidUtf8 l.location)
    | some name =>
      if name = "" then .error (refuse .malformedLine l.location)
      else do
        let value ← readValue l.location behind
        return (name, value)

/-- The name and value of a line whose value has to be a text. -/
def LogicalLine.splitText (l : LogicalLine) : Except Refusal (String × String) := do
  let (name, value) ← l.split
  match Utf8.decode? value with
  | some text => return (name, text)
  | none => .error (refuse .invalidUtf8 l.location)

/-- The fault of a line that has no business where it stands; its beginning is shown. -/
def LogicalLine.unexpected (l : LogicalLine) : Refusal :=
  refuse (.unexpectedLine (Utf8.takeWithin 64 (Utf8.decodeLossy l.text))) l.location

/-- A violation of the model as the fault of a record. -/
def invalid {α : Type} (location : Location) (result : Except ModelError α) :
    Except Refusal α :=
  result.mapError fun e => refuse (.invalidRecord e) location

/-- The text with its ASCII letters in lower case. -/
def lowerAscii (s : String) : String := s.map Char.toLower

/-- Gathers the values of attribute lines.  A second `dn` line means that a blank line is missing
between two records. -/
def gatherValues (draft : EntryDraft) : List LogicalLine → Except Refusal EntryDraft
  | [] => .ok draft
  | line :: rest =>
    if line.isNamed "dn" then .error line.unexpected
    else do
      let (name, value) ← line.split
      gatherValues (draft.push name value) rest

/-- The record that adds an entry with these attribute lines. -/
def readAdd (dn : String) (location : Location) (lines : List LogicalLine) :
    Except Refusal ChangeRecord := do
  let draft ← gatherValues { dn } lines
  let entry ← invalid location draft.build
  return .add entry

/-- The record that deletes; it has no further lines. -/
def readDelete (dn : String) (location : Location) : List LogicalLine → Except Refusal ChangeRecord
  | [] => invalid location (ChangeRecord.makeDelete dn)
  | line :: _ => .error line.unexpected

/-- A modification whose lines are being read. -/
structure Block where
  /-- Where the modification begins. -/
  location : Location
  /-- What it does. -/
  kind : ModificationKind
  /-- The attribute that it is about. -/
  name : String
  /-- The values so far. -/
  values : List Bytes := []
  deriving DecidableEq, Repr

namespace Block

/-- The kind of modification that the word asks for, in any ASCII case. -/
def kind? (word : String) : Option ModificationKind :=
  match lowerAscii word with
  | "add" => some .add
  | "delete" => some .delete
  | "replace" => some .replace
  | _ => none

/-- The block that begins with the line. -/
def ofHead (line : LogicalLine) : Except Refusal Block := do
  let (word, name) ← line.splitText
  match kind? word with
  | some kind => return { location := line.location, kind, name := Blank.trim name }
  | none => .error (refuse (.unknownModification word) line.location)

/-- The block with the value of the line, which has to have the name of the attribute. -/
def add (b : Block) (line : LogicalLine) : Except Refusal Block := do
  let (name, value) ← line.split
  if sameName name b.name then return { b with values := b.values ++ [value] }
  else .error line.unexpected

/-- The modification of the block. -/
def close (b : Block) : Except Refusal Modification :=
  invalid b.location (Modification.make b.kind b.name b.values)

end Block

/-- The modifications of the lines, where the block `current` may have been begun.  A separator
ends a block; behind the last one it may be missing. -/
def readBlocks (current : Option Block) : List LogicalLine → Except Refusal (List Modification)
  | [] =>
    match current with
    | none => .ok []
    | some block => do
      let modification ← block.close
      return [modification]
  | line :: rest =>
    match current with
    | none => do
      let block ← Block.ofHead line
      readBlocks (some block) rest
    | some block =>
      if line.isSeparator then do
        let modification ← block.close
        let modifications ← readBlocks none rest
        return modification :: modifications
      else do
        let block ← block.add line
        readBlocks (some block) rest

/-- The record that modifies an entry as the lines say. -/
def readModify (dn : String) (location : Location) (lines : List LogicalLine) :
    Except Refusal ChangeRecord := do
  let modifications ← readBlocks none lines
  invalid location (ChangeRecord.makeModify dn modifications)

/-- What the lines of a rename have said so far. -/
structure RenameDraft where
  /-- The new relative name. -/
  newRdn : Option String := none
  /-- Whether the values of the old relative name go. -/
  deleteOldRdn : Option Bool := none
  /-- The new parent. -/
  newSuperior : Option String := none
  deriving DecidableEq, Repr

/-- Takes up a line of a rename.  Each of the three may be given once. -/
def RenameDraft.add (d : RenameDraft) (line : LogicalLine) : Except Refusal RenameDraft := do
  let (name, value) ← line.splitText
  match lowerAscii name, d with
  | "newrdn", { newRdn := none, .. } => return { d with newRdn := some value }
  | "deleteoldrdn", { deleteOldRdn := none, .. } =>
    match Blank.trim value with
    | "0" => return { d with deleteOldRdn := some false }
    | "1" => return { d with deleteOldRdn := some true }
    | _ => .error (refuse .malformedLine line.location)
  | "newsuperior", { newSuperior := none, .. } => return { d with newSuperior := some value }
  | _, _ => .error line.unexpected

/-- The record that renames an entry as the lines say. -/
def readRename (dn : String) (location : Location) (lines : List LogicalLine) :
    Except Refusal ChangeRecord := do
  let draft ← lines.foldlM RenameDraft.add {}
  match draft.newRdn, draft.deleteOldRdn with
  | some newRdn, some deleteOldRdn =>
    invalid location (ChangeRecord.makeRename dn newRdn deleteOldRdn draft.newSuperior)
  | _, _ => .error (refuse .malformedLine location)

/-- The record for the name whose further lines are `lines`.  Control lines are passed over. -/
def readChange (dn : String) (location : Location) (lines : List LogicalLine) :
    Except Refusal ChangeRecord :=
  match lines.dropWhile (·.isNamed "control") with
  | [] => readAdd dn location []
  | line :: body =>
    if line.isNamed "changetype" then do
      let (_, word) ← line.splitText
      match lowerAscii (Blank.trim word) with
      | "add" => readAdd dn location body
      | "delete" => readDelete dn location body
      | "modify" => readModify dn location body
      | "modrdn" => readRename dn location body
      | "moddn" => readRename dn location body
      | _ => .error (refuse (.unknownChangeType word) line.location)
    else
      readAdd dn location (line :: body)

/-- The record of lines that begin with its `dn` line. -/
def readLines : List LogicalLine → Except Refusal (Option ChangeRecord)
  | [] => .ok none
  | first :: rest =>
    if first.isNamed "dn" then do
      let (_, dn) ← first.splitText
      let record ← readChange dn first.location rest
      return some record
    else
      .error ⟨.fatal .missingDn first.location, []⟩

/-- What is told of a version line: nothing, if it gives the version 1. -/
def versionEvents (version : String) : List LogEvent :=
  if Blank.trim version = "1" then [] else [.warn "unexpected LDIF version"]

/-- Reads a record, at the beginning of which a version line may stand.  A record of nothing but a
version line gives no change. -/
def readRecord (versionAllowed : Bool) (raw : RawRecord) :
    Except ParseError (Option ChangeRecord) × List LogEvent :=
  let conclude (events : List LogEvent) (result : Except Refusal (Option ChangeRecord)) :=
    match result with
    | .ok record => (.ok record, events)
    | .error refusal => (.error refusal.error, events ++ refusal.events)
  match raw.orphan with
  | some number => (.error (.recoverable .malformedLine (.line number)), [])
  | none =>
    match raw.lines with
    | first :: rest =>
      if versionAllowed && first.isNamed "version" then
        match first.splitText with
        | .ok (_, version) => conclude (versionEvents version) (readLines rest)
        | .error refusal => conclude [] (.error refusal)
      else
        conclude [] (readLines (first :: rest))
    | [] => (.ok none, [])

end DirectoryExchange.Ldif

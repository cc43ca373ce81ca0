import DirectoryExchange.Model.Error
import DirectoryExchange.Model.ResultCode

/-!
# Failures

What can go wrong between a stream and a directory, each with its words.  A parse error tells
whether the reader stands at the end of a record and can go on; an I/O error always ends it.
-/

namespace DirectoryExchange

/-- Where in the source a parse error was noticed. -/
inductive Location where
  /-- A line, the first being 1. -/
  | line (number : Nat)
  /-- A number of octets from the beginning. -/
  | offset (octets : Nat)
  /-- A path of elements. -/
  | element (path : String)
  | unknown
  deriving DecidableEq, Repr

/-- The location in words. -/
def Location.text : Location → String
  | line number => s!"line {number}"
  | offset octets => s!"byte {octets}"
  | element path => path
  | unknown => "unknown location"

/-- What is wrong with the source. -/
inductive ParseErrorKind where
  | malformedLine
  | missingDn
  | invalidBase64
  | invalidUtf8
  | unknownChangeType (word : String)
  | unknownModification (word : String)
  | unsupportedReference
  | unexpectedLine (line : String)
  | invalidRecord (error : ModelError)
  | xml (detail : String)
  | notDsml (found : String)
  deriving DecidableEq, Repr

/-- The fault in words. -/
def ParseErrorKind.text : ParseErrorKind → String
  | malformedLine => "malformed line"
  | missingDn => "record does not start with a dn line"
  | invalidBase64 => "invalid base64 value"
  | invalidUtf8 => "value is not valid UTF-8"
  | unknownChangeType word => s!"unknown change type {Quoted.quote word}"
  | unknownModification word => s!"unknown modification type {Quoted.quote word}"
  | unsupportedReference => "values by URL reference are not supported"
  | unexpectedLine line => s!"unexpected line {Quoted.quote line}"
  | invalidRecord error => s!"invalid record: {error.message}"
  | xml detail => s!"XML error: {detail}"
  | notDsml found => s!"document is not DSML: {found}"

/-- A fault in the source. -/
structure ParseError where
  /-- What is wrong. -/
  kind : ParseErrorKind
  /-- Whether the reader can go on with the next record. -/
  mayContinue : Bool
  /-- Where it was noticed. -/
  location : Location
  deriving DecidableEq, Repr

namespace ParseError

/-- A fault confined to its record. -/
def recoverable (kind : ParseErrorKind) (location : Location) : ParseError :=
  ⟨kind, true, location⟩

/-- A fault behind which nothing can be read. -/
def fatal (kind : ParseErrorKind) (location : Location) : ParseError :=
  ⟨kind, false, location⟩

/-- The fault in words. -/
def message (e : ParseError) : String := s!"{e.kind.text} at {e.location.text}"

end ParseError

/-- A stream failed. -/
structure StreamError where
  /-- The stream's own words. -/
  message : String
  deriving DecidableEq, Repr

/-- Why a reader gives no record. -/
inductive ReadError where
  | parse (error : ParseError)
  | stream (error : StreamError)
  deriving DecidableEq, Repr

/-- Whether the reader can go on. -/
def ReadError.mayContinue : ReadError → Bool
  | parse error => error.mayContinue
  | stream _ => false

/-- The directory refused the operation. -/
structure DirectoryError where
  /-- The result code. -/
  code : ResultCode
  /-- The directory's own words. -/
  message : String
  deriving DecidableEq, Repr

/-- The way to the directory failed. -/
structure ConnectionError where
  /-- What failed. -/
  message : String
  deriving DecidableEq, Repr

/-- Why an operation on a directory failed. -/
inductive OperationError where
  | connection (error : ConnectionError)
  | directory (error : DirectoryError)
  deriving DecidableEq, Repr

/-- Why a transfer stopped. -/
inductive Failure where
  | parse (error : ParseError)
  | directory (error : DirectoryError)
  | connection (error : ConnectionError)
  | stream (error : StreamError)
  deriving DecidableEq, Repr

/-- The failure in words. -/
def Failure.message : Failure → String
  | parse error => s!"parse error: {error.message}"
  | directory error => s!"directory returned {error.code.text}: {error.message}"
  | connection error => s!"connection failed: {error.message}"
  | stream error => s!"I/O error: {error.message}"

/-- A failed read as the failure of a transfer. -/
def ReadError.toFailure : ReadError → Failure
  | parse error => .parse error
  | stream error => .stream error

/-- A failed operation as the failure of a transfer. -/
def OperationError.toFailure : OperationError → Failure
  | connection error => .connection error
  | directory error => .directory error

end DirectoryExchange

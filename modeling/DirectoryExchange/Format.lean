import DirectoryExchange.Dsml.Reader
import DirectoryExchange.Ldif.Printer
import DirectoryExchange.Ldif.Reader
import DirectoryExchange.Path

/-!
# Exchange formats

The two formats in which entries are exchanged, with what a transfer has to know of each: how to
read a source, and what to write in front of the entries, for every entry, and behind them.
-/

namespace DirectoryExchange

/-- A format in which entries are exchanged. -/
inductive Format where
  | ldif
  | dsml
  deriving DecidableEq, Repr

namespace Format

/-- The name of the format. -/
def name : Format → String
  | ldif => "LDIF"
  | dsml => "DSML"

/-- The format of the file at a path, as its extension has it.  Without one that is known, it is
taken to be LDIF. -/
def ofPath (path : String) : Format :=
  match (Path.extension? path).map fun s => s.map Char.toLower with
  | some "dsml" => dsml
  | some "xml" => dsml
  | _ => ldif

/-- Everything that the source gives in the format, if it can be opened. -/
def open? : Format → Source → Except ReadError Feed
  | ldif, source => .ok (Ldif.feed source)
  | dsml, source => Dsml.open? source

/-- What stands in front of the entries, if anything does. -/
def prolog? : Format → Option Bytes
  | ldif => none
  | dsml => some (Utf8.encode Dsml.prologLines)

/-- What stands behind the entries, if anything does. -/
def epilogue? : Format → Option Bytes
  | ldif => none
  | dsml => some (Utf8.encode Dsml.epilogueLines)

/-- The entry behind `written` others. -/
def renderNext : Format → Nat → Entry → Bytes
  | ldif, written, entry => Ldif.renderNext written entry
  | dsml, _, entry => Dsml.renderEntry entry

/-- The entries behind `written` others. -/
def renderFrom (format : Format) (written : Nat) : List Entry → Bytes
  | [] => []
  | entry :: rest => format.renderNext written entry ++ format.renderFrom (written + 1) rest

/-- The document of the entries. -/
def render (format : Format) (entries : List Entry) : Bytes :=
  format.prolog?.getD [] ++ format.renderFrom 0 entries ++ format.epilogue?.getD []

end Format

end DirectoryExchange

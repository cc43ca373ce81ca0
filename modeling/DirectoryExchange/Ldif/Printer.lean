import DirectoryExchange.Base64
import DirectoryExchange.Ldif.Folding
import DirectoryExchange.Model.Entry

/-!
# Entries as LDIF

An entry is written as a content record: a `dn` line and a line for every value.  A value that
could not be read back as it stands is written in base64.  An entry whose first attribute would be
taken for a directive is written with an explicit change type.
-/

namespace DirectoryExchange.Ldif

/-- Physical lines have at most this many octets. -/
def wrapColumn : Nat := 76

/-- Whether the octet cannot stand in a text value. -/
def breaksLine (b : UInt8) : Bool := b == 0 || b == Bytes.lineFeed || b == Bytes.carriageReturn

/-- Whether a text value cannot begin with the octet. -/
def misleadsAtStart (b : UInt8) : Bool := b == Bytes.space || b == 0x3A || b == 0x3C

/-- Whether the value can be written as text: UTF-8 without NUL and line ends, that begins with
neither a space, `:` nor `<` and does not end with a space. -/
def isSafe (v : Bytes) : Bool :=
  Utf8.isValid v && !v.any breaksLine && !v.head?.any misleadsAtStart &&
    v.getLast? != some Bytes.space

/-- The logical line of a name and value: the name and a colon alone for an empty value, the value
as text if it is safe, and else in base64. -/
def valueLine (name : String) (value : Bytes) : String :=
  if value = [] then name ++ ":"
  else
    match Utf8.decode? value with
    | some text =>
      if isSafe value then name ++ ": " ++ text else name ++ ":: " ++ Base64.encode value
    | none => name ++ ":: " ++ Base64.encode value

/-- The physical lines of a name and value. -/
def renderValue (name : String) (value : Bytes) : Bytes := fold wrapColumn (valueLine name value)

/-- Whether a line of that name, behind the `dn` line, is read as a directive. -/
def isDirective (name : String) : Bool := sameName name "changetype" || sameName name "control"

/-- The lines of an attribute, one for every value. -/
def renderAttribute (a : Attribute) : Bytes := a.values.flatMap (renderValue a.name)

/-- The content record of an entry. -/
def renderEntry (e : Entry) : Bytes :=
  renderValue "dn" (Utf8.encode e.dn) ++
    (if e.attributes.head?.any fun a => isDirective a.name then
      renderValue "changetype" (Utf8.encode "add")
    else []) ++
    e.attributes.flatMap renderAttribute

/-- The content record of an entry behind `written` others, from which a blank line separates
it. -/
def renderNext (written : Nat) (e : Entry) : Bytes :=
  if written = 0 then renderEntry e else Bytes.lineFeed :: renderEntry e

end DirectoryExchange.Ldif

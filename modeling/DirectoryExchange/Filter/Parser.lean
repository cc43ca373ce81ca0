import DirectoryExchange.Filter.Basic
import DirectoryExchange.Text.Blank
import DirectoryExchange.Text.Hex
import DirectoryExchange.Text.Utf8

/-!
# The text of filters

A filter is written in parentheses: an operator and further filters, or the name of an attribute
and a value.  A value gives an octet by a backslash and two hexadecimal digits, and is an asterisk
if any value will do.  Other kinds of match are known for what they are but not supported.
-/

namespace DirectoryExchange

/-- Why a text is no filter. -/
inductive FilterError where
  /-- It is no filter at all. -/
  | malformed
  /-- It asks for a kind of match that is not supported. -/
  | unsupported
  deriving DecidableEq, Repr

namespace Filter

/-- Whether the character ends the name of an attribute. -/
def endsName (c : Char) : Bool :=
  c == '=' || c == '~' || c == '<' || c == '>' || c == ':' || c == '(' || c == ')'

/-- Whether the character ends a value. -/
def endsValue (c : Char) : Bool := c == '(' || c == ')'

/-- The octet that is given behind a backslash, which may also be a plus sign and one digit. -/
def escapedOctet? (high low : Char) : Option UInt8 :=
  if high = '+' then Hex.octet? '0' low else Hex.octet? high low

/-- The octets of a value. -/
def unescape? : List Char → Option Bytes
  | [] => some []
  | c :: rest =>
    if c = '\\' then
      match rest with
      | high :: low :: rest =>
        match escapedOctet? high low with
        | some octet => (unescape? rest).map (octet :: ·)
        | none => none
      | _ => none
    else (unescape? rest).map (Utf8.encodeChar c ++ ·)

/-- The filter of an attribute and the text of a value. -/
def ofValue (name : String) (raw : List Char) : Except FilterError Filter :=
  if raw = ['*'] then .ok (.present name)
  else if '*' ∈ raw then .error .unsupported
  else
    match unescape? raw with
    | some value => .ok (.equal name value)
    | none => .error .malformed

/-- Reads the name of an attribute, the kind of match and a value. -/
def parseItem (cs : List Char) : Except FilterError (Filter × List Char) :=
  let name := Blank.trim (String.ofList (cs.takeWhile fun c => !endsName c))
  match cs.dropWhile fun c => !endsName c with
  | [] => .error .malformed
  | mark :: rest =>
    if mark = ':' then .error .unsupported
    else if name = "" then .error .malformed
    else if mark = '=' then do
      let filter ← ofValue name (rest.takeWhile fun c => !endsValue c)
      return (filter, rest.dropWhile fun c => !endsValue c)
    else if mark = '~' ∨ mark = '<' ∨ mark = '>' then
      .error (if rest.head? = some '=' then .unsupported else .malformed)
    else .error .malformed

/-- Reads filters with `parse` as long as one begins; at most `limit` of them. -/
def parseMany (parse : List Char → Except FilterError (Filter × List Char)) :
    Nat → List Char → Except FilterError (List Filter × List Char)
  | 0, cs => .ok ([], cs)
  | limit + 1, cs =>
    if cs.head? = some '(' then do
      let (filter, rest) ← parse cs
      let (filters, rest) ← parseMany parse limit rest
      return (filter :: filters, rest)
    else .ok ([], cs)

/-- Reads the filters behind an operator, of which there has to be one. -/
def parseSome (parse : List Char → Except FilterError (Filter × List Char)) (cs : List Char) :
    Except FilterError (List Filter × List Char) := do
  let (filters, rest) ← parseMany parse cs.length cs
  if filters.isEmpty then .error .malformed else return (filters, rest)

/-- Reads what stands between the parentheses of a filter, and further filters with `parse`. -/
def parseContent (parse : List Char → Except FilterError (Filter × List Char)) :
    List Char → Except FilterError (Filter × List Char)
  | [] => .error .malformed
  | c :: rest =>
    if c = '&' then do
      let (filters, rest) ← parseSome parse rest
      return (.and filters, rest)
    else if c = '|' then do
      let (filters, rest) ← parseSome parse rest
      return (.or filters, rest)
    else if c = '!' then do
      let (filter, rest) ← parse rest
      return (.not filter, rest)
    else parseItem (c :: rest)

/-- Reads a filter that is nested at most `depth` deep, and gives what follows it. -/
def parseNested : Nat → List Char → Except FilterError (Filter × List Char)
  | 0, _ => .error .malformed
  | depth + 1, cs =>
    match cs with
    | '(' :: rest => do
      let (filter, rest) ← parseContent (parseNested depth) rest
      match rest with
      | ')' :: rest => return (filter, rest)
      | _ => .error .malformed
    | _ => .error .malformed

/-- The filter that the text gives, white space around it apart. -/
def parse (text : String) : Except FilterError Filter := do
  let cs := Blank.trimBy Blank.isBlank text.toList
  let (filter, rest) ← parseNested cs.length cs
  if rest.isEmpty then return filter else .error .malformed

end Filter

end DirectoryExchange

import DirectoryExchange.Ldap.WireFilter

/-!
# The syntax of filters on the wire

A filter is taken apart before it is sent, and one that is not well-formed is not sent at all.
`WireFilter.parse?` reads a filter, or a match without the parentheses around it.  A recognizer
tells whether a text begins with a part of a filter, and gives what follows this part; a reader also
gives what the part says.
-/

namespace DirectoryExchange.Ldap

namespace FilterSyntax

/-- Gives what follows a part, if the text begins with it. -/
abbrev Recognizer := List Char → Option (List Char)

/-- Gives what a part says and what follows it, if the text begins with it. -/
abbrev PartReader (α : Type) := List Char → Option (α × List Char)

/-- The characters themselves. -/
def exactly : List Char → Recognizer
  | [], cs => some cs
  | x :: xs, c :: cs => if x = c then exactly xs cs else none
  | _ :: _, [] => none

/-- One part and then the other. -/
def followedBy (r s : Recognizer) : Recognizer := fun cs => (r cs).bind s

/-- The part as often as it comes, at most `limit` times. -/
def repeated (r : Recognizer) : Nat → Recognizer
  | 0, cs => some cs
  | limit + 1, cs =>
    match r cs with
    | some rest => repeated r limit rest
    | none => some cs

/-- The part as often as it comes.  It has at least one character. -/
def many (r : Recognizer) : Recognizer := fun cs => repeated r cs.length cs

/-- The part as it is written. -/
def written (r : Recognizer) : PartReader String := fun cs =>
  (r cs).map fun rest => (String.ofList (cs.take (cs.length - rest.length)), rest)

/-- What the first part says that the text begins with. -/
def firstOf {α : Type} : List (PartReader α) → PartReader α
  | [], _ => none
  | r :: rest, cs => (r cs).or (firstOf rest cs)

/-- What the part says each time, as often as it comes, at most `limit` times. -/
def readRepeated {α : Type} (r : PartReader α) : Nat → List Char → List α × List Char
  | 0, cs => ([], cs)
  | limit + 1, cs =>
    match r cs with
    | some (x, rest) =>
      let (xs, rest) := readRepeated r limit rest
      (x :: xs, rest)
    | none => ([], cs)

/-- What the part says each time, as often as it comes.  It has at least one character. -/
def readMany {α : Type} (r : PartReader α) (cs : List Char) : List α × List Char :=
  readRepeated r cs.length cs

/-- Whether the character is a letter, a digit or a hyphen. -/
def isWordChar (c : Char) : Bool := c.isAlphanum || c == '-'

/-- A number without superfluous zeros in front. -/
def number : Recognizer := fun cs =>
  match cs.takeWhile Char.isDigit with
  | [] => none
  | [_] => some (cs.dropWhile Char.isDigit)
  | d :: _ => if d = '0' then none else some (cs.dropWhile Char.isDigit)

/-- An identifier of numbers with dots between them. -/
def numericId : Recognizer := followedBy number (many (followedBy (exactly ['.']) number))

/-- A word that begins with a letter. -/
def descriptor : Recognizer
  | [] => none
  | c :: rest => if c.isAlpha then some (rest.dropWhile isWordChar) else none

/-- The type of an attribute. -/
def attributeType : Recognizer := fun cs => (numericId cs).or (descriptor cs)

/-- An option of an attribute. -/
def attributeOption : Recognizer
  | [] => none
  | c :: rest =>
    if c = ';' ∧ rest.head?.any isWordChar then some (rest.dropWhile isWordChar) else none

/-- An attribute with its options. -/
def attributeDescription : PartReader String :=
  written (followedBy attributeType (many attributeOption))

/-- Whether the character can stand in a value. -/
def isValueChar (c : Char) : Bool := c != '\x00' && c != '(' && c != ')' && c != '*'

/-- The octets of a value.  Behind a backslash stand two hexadecimal digits. -/
def unescape? : List Char → Option Bytes
  | [] => some []
  | c :: rest =>
    if c = '\\' then
      match rest with
      | high :: low :: rest => do
        let octet ← Hex.octet? high low
        let octets ← unescape? rest
        return octet :: octets
      | _ => none
    else (unescape? rest).map fun octets => Utf8.encodeChar c ++ octets

/-- A value, which may be empty. -/
def value : PartReader Bytes := fun cs =>
  (unescape? (cs.takeWhile isValueChar)).map fun octets => (octets, cs.dropWhile isValueChar)

/-- A value behind an asterisk that has at least one octet. -/
def innerValue : PartReader Bytes := fun cs => do
  let (octets, rest) ← value (← exactly ['*'] cs)
  if octets = [] then none else return (octets, rest)

/-- A value, or values with asterisks between them, of which only the first and the last may be
empty. -/
def valueParts : PartReader (List Bytes) := fun cs => do
  let (first, cs) ← value cs
  let (inner, cs) := readMany innerValue cs
  match exactly ['*'] cs with
  | none => return (first :: inner, cs)
  | some behind => if behind.head? = some '*' then none else return (first :: inner ++ [[]], behind)

/-- A match for a value, for the presence of an attribute or for parts of a value. -/
def equality : PartReader WireFilter := fun cs => do
  let (name, cs) ← attributeDescription cs
  let (parts, cs) ← valueParts (← exactly ['='] cs)
  match parts with
  | [octets] => return (.compare name .equal octets, cs)
  | _ => return (.parts name parts, cs)

/-- The sign of a comparison other than equality. -/
def comparisonSign : PartReader Comparison
  | '>' :: '=' :: rest => some (.atLeast, rest)
  | '<' :: '=' :: rest => some (.atMost, rest)
  | '~' :: '=' :: rest => some (.similar, rest)
  | _ => none

/-- A match by order or similarity. -/
def comparison : PartReader WireFilter := fun cs => do
  let (name, cs) ← attributeDescription cs
  let (sign, cs) ← comparisonSign cs
  let (octets, cs) ← value cs
  return (.compare name sign octets, cs)

/-- The mark of a match in the distinguished name as well, and whether it is there. -/
def dnMark (cs : List Char) : Bool × List Char :=
  match exactly [':', 'd', 'n'] cs with
  | some rest => (true, rest)
  | none => (false, cs)

/-- The name of a rule of matching. -/
def ruleName : PartReader String := fun cs => do written attributeType (← exactly [':'] cs)

/-- The value of a match by a rule. -/
def ruleValue : PartReader Bytes := fun cs => do value (← exactly [':', '='] cs)

/-- A match of an attribute by a rule, which may be left out. -/
def attributeMatching : PartReader WireFilter := fun cs => do
  let (name, cs) ← attributeDescription cs
  let (inName, cs) := dnMark cs
  let (rule, cs) :=
    match ruleName cs with
    | some (rule, rest) => (some rule, rest)
    | none => (none, cs)
  let (octets, cs) ← ruleValue cs
  return (.matching (some name) inName rule octets, cs)

/-- A match of whatever a rule applies to. -/
def ruleMatching : PartReader WireFilter := fun cs => do
  let (inName, cs) := dnMark cs
  let (rule, cs) ← ruleName cs
  let (octets, cs) ← ruleValue cs
  return (.matching none inName (some rule) octets, cs)

/-- A match of any kind. -/
def item : PartReader WireFilter :=
  firstOf [equality, comparison, attributeMatching, ruleMatching]

/-- What stands between the parentheses of a filter in which `nested` reads the filters. -/
def content (nested : PartReader WireFilter) : PartReader WireFilter
  | '&' :: rest =>
    let (filters, rest) := readMany nested rest
    some (.and filters, rest)
  | '|' :: rest =>
    let (filters, rest) := readMany nested rest
    some (.or filters, rest)
  | '!' :: rest => (nested rest).map fun (filter, rest) => (.not filter, rest)
  | cs => item cs

/-- A filter in parentheses that is nested at most `depth` deep. -/
def filter : Nat → PartReader WireFilter
  | 0, _ => none
  | depth + 1, cs => do
    let (filter, cs) ← content (filter depth) (← exactly ['('] cs)
    return (filter, ← exactly [')'] cs)

end FilterSyntax

/-- The filter that the text is, or the match without the parentheses around it. -/
def WireFilter.parse? (text : String) : Option WireFilter :=
  let cs := text.toList
  match FilterSyntax.firstOf [FilterSyntax.filter cs.length, FilterSyntax.item] cs with
  | some (filter, []) => some filter
  | _ => none

end DirectoryExchange.Ldap

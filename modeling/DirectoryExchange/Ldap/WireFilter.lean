import DirectoryExchange.Text.Hex
import DirectoryExchange.Text.Utf8

/-!
# Filters on the wire

A server is sent the structure of a filter and not its text.  All kinds of match are known here.
`WireFilter.text` gives each filter one text, whatever it was written like.
-/

namespace DirectoryExchange.Ldap

/-- How a value is compared. -/
inductive Comparison where
  /-- The value is held. -/
  | equal
  /-- A value is held that does not come before it. -/
  | atLeast
  /-- A value is held that does not come behind it. -/
  | atMost
  /-- A similar value is held. -/
  | similar
  deriving DecidableEq, Repr

/-- The sign of a comparison. -/
def Comparison.sign : Comparison → String
  | equal => "="
  | atLeast => ">="
  | atMost => "<="
  | similar => "~="

/-- A filter as a server is sent it. -/
inductive WireFilter where
  /-- All of the filters hold. -/
  | and (filters : List WireFilter)
  /-- One of the filters holds. -/
  | or (filters : List WireFilter)
  /-- The filter does not hold. -/
  | not (filter : WireFilter)
  /-- The attribute of this name compares so with the value. -/
  | compare (name : String) (comparison : Comparison) (value : Bytes)
  /-- The attribute has a value in which the parts follow each other, with anything in between.  Two
  empty parts leave only that there is a value. -/
  | parts (name : String) (values : List Bytes)
  /-- The value matches by a rule, possibly in the distinguished name as well. -/
  | matching (name : Option String) (inName : Bool) (rule : Option String) (value : Bytes)
  deriving Repr

namespace WireFilter

/-- The octet as a backslash and two digits. -/
def escapeOctet (b : UInt8) : List Char := '\\' :: Hex.digits b

/-- The characters that would end a value or mean something else in it. -/
def specials : List Char := [Char.ofNat 0, '(', ')', '*', '\\']

/-- The character as it stands in a value. -/
def escapeChar (c : Char) : List Char :=
  if specials.contains c then (Utf8.encodeChar c).flatMap escapeOctet else [c]

/-- The value as it stands in a filter: text with what is special escaped, or all octets escaped. -/
def valueText (value : Bytes) : String :=
  match Utf8.decode? value with
  | some text => String.ofList (text.toList.flatMap escapeChar)
  | none => String.ofList (value.flatMap escapeOctet)

mutual

/-- The text of a filter. -/
def text : WireFilter → String
  | and filters => "(&" ++ texts filters ++ ")"
  | or filters => "(|" ++ texts filters ++ ")"
  | not filter => "(!" ++ filter.text ++ ")"
  | compare name comparison value => "(" ++ name ++ comparison.sign ++ valueText value ++ ")"
  | parts name values => "(" ++ name ++ "=" ++ "*".intercalate (values.map valueText) ++ ")"
  | matching name inName rule value =>
    "(" ++ name.getD "" ++ (if inName then ":dn" else "") ++
      (match rule with
        | some rule => ":" ++ rule
        | none => "") ++
      ":=" ++ valueText value ++ ")"

/-- The texts of filters, one behind the other. -/
def texts : List WireFilter → String
  | [] => ""
  | filter :: rest => filter.text ++ texts rest

end

end WireFilter

end DirectoryExchange.Ldap

import DirectoryExchange.Text.Hex
import DirectoryExchange.Text.Utf8

/-!
# Escapes in markup

Five characters are written as entities wherever a text is put into markup.  Reading knows these
five by name and every character by its number; a reference to anything else is no text.
-/

namespace DirectoryExchange.Xml

/-- The entities that have a name. -/
def entities : List (Char × List Char) :=
  [('<', "lt".toList), ('>', "gt".toList), ('&', "amp".toList), ('\x27', "apos".toList),
    ('"', "quot".toList)]

/-- The character as it is written in text and in attribute values. -/
def escapeChar (c : Char) : List Char :=
  match entities.lookup c with
  | some name => '&' :: name ++ [';']
  | none => [c]

/-- The characters as they are written. -/
def escapeChars (cs : List Char) : List Char := cs.flatMap escapeChar

/-- The text as it is written. -/
def escape (s : String) : String := String.ofList (escapeChars s.toList)

/-- The number that the digits go on to from `sofar`; each has to be below the base. -/
def numberFrom? (base sofar : Nat) : List Char → Option Nat
  | [] => some sofar
  | c :: rest =>
    match Hex.value? c with
    | some d => if d < base then numberFrom? base (sofar * base + d) rest else none
    | none => none

/-- The number of one or more digits. -/
def number? (base : Nat) (digits : List Char) : Option Nat :=
  if digits = [] then none else numberFrom? base 0 digits

/-- The character with that number; NUL is none. -/
def charOfNumber? (n : Nat) : Option Char :=
  if n ≠ 0 ∧ n.isValidChar then some (Char.ofNat n) else none

/-- The character that a reference names, given what stands between `&` and `;`. -/
def resolve? : List Char → Option Char
  | '#' :: 'x' :: digits => (number? 16 digits).bind charOfNumber?
  | '#' :: digits => (number? 10 digits).bind charOfNumber?
  | name => (entities.find? fun entity => entity.2 == name).map (·.1)

/-- The characters that were written, where `reference` (last character first) is what has been
read of a reference. -/
def unescapeFrom (reference : Option (List Char)) : List Char → Option (List Char)
  | [] => if reference = none then some [] else none
  | c :: rest =>
    match reference with
    | none =>
      if c = '&' then unescapeFrom (some []) rest
      else (unescapeFrom none rest).map (c :: ·)
    | some name =>
      if c = ';' then
        match resolve? name.reverse with
        | some x => (unescapeFrom none rest).map (x :: ·)
        | none => none
      else if c = '&' then none
      else unescapeFrom (some (c :: name)) rest

/-- The text that was written in markup as these octets, which have to be UTF-8. -/
def unescape? (v : Bytes) : Option String := do
  let s ← Utf8.decode? v
  let cs ← unescapeFrom none s.toList
  return String.ofList cs

end DirectoryExchange.Xml

import DirectoryExchange.Pieces
import DirectoryExchange.Text.Blank
import DirectoryExchange.Text.Hex
import DirectoryExchange.Text.Utf8

/-!
# Distinguished names

A distinguished name is a text: the relative names on the way from an entry up to the root,
separated by commas.  A relative name is one or more pairs of a type and a value, joined by plus
signs.  A backslash takes the meaning from the character behind it, or gives an octet by two
hexadecimal digits.  White space around types and values does not belong to them unless it is
escaped.
-/

namespace DirectoryExchange.Dn

/-- A pair of a relative name. -/
structure Ava where
  /-- The type as it is spelled. -/
  type : String
  /-- The octets of the value. -/
  value : Bytes
  deriving DecidableEq, Repr

/-- A relative name: its pairs in order. -/
abbrev Rdn := List Ava

/-- A character of a name, or an octet that was escaped. -/
inductive Token where
  /-- A character that stands for itself or for a separator. -/
  | plain (c : Char)
  /-- An octet that stands for itself. -/
  | escaped (octet : UInt8)
  deriving DecidableEq, Repr

/-- The characters that a backslash may stand in front of. -/
def specials : List Char := [' ', '"', '#', '+', ',', ';', '<', '=', '>', '\\']

/-- The tokens of a text; `none` if a backslash has nothing behind it that it could escape. -/
def tokenize? : List Char → Option (List Token)
  | [] => some []
  | c :: rest =>
    if c = '\\' then
      match rest with
      | [] => none
      | e :: rest =>
        if e ∈ specials then (tokenize? rest).map (.escaped (UInt8.ofNat e.toNat) :: ·)
        else
          match rest with
          | [] => none
          | f :: rest =>
            match Hex.octet? e f with
            | some octet => (tokenize? rest).map (.escaped octet :: ·)
            | none => none
    else (tokenize? rest).map (.plain c :: ·)

theorem tokenize?_plain {c : Char} (hc : c ≠ '\\') (cs : List Char) :
    tokenize? (c :: cs) = (tokenize? cs).map (.plain c :: ·) := by
  rw [tokenize?.eq_def]
  simp only [if_neg hc]

/-- A special character behind a backslash loses its meaning. -/
theorem tokenize?_special {e : Char} (he : e ∈ specials) (cs : List Char) :
    tokenize? ('\\' :: e :: cs) = (tokenize? cs).map (.escaped (UInt8.ofNat e.toNat) :: ·) := by
  rw [tokenize?.eq_def]
  simp only [if_true, if_pos he]

/-- Two hexadecimal digits behind a backslash give an octet. -/
theorem tokenize?_octet {e f : Char} {octet : UInt8} (he : e ∉ specials)
    (hoctet : Hex.octet? e f = some octet) (cs : List Char) :
    tokenize? ('\\' :: e :: f :: cs) = (tokenize? cs).map (.escaped octet :: ·) := by
  rw [tokenize?.eq_def]
  simp only [if_true, if_neg he, hoctet]

/-- Whether the token is white space that may be dropped. -/
def Token.isBlank : Token → Bool
  | plain c => Blank.isBlank c
  | escaped _ => false

/-- The octets that a token stands for. -/
def Token.octets : Token → Bytes
  | plain c => Utf8.encodeChar c
  | escaped octet => [octet]

/-- The tokens without the white space around them. -/
def trim (tokens : List Token) : List Token := Blank.trimBy Token.isBlank tokens

/-- The characters of tokens none of which is escaped. -/
def plainChars? : List Token → Option (List Char)
  | [] => some []
  | .plain c :: rest => (plainChars? rest).map (c :: ·)
  | .escaped _ :: _ => none

/-- The pair of the tokens on both sides of the first equals sign.  There is a type, and nothing in
it is escaped. -/
def parseAva? (tokens : List Token) : Option Ava := do
  let (type, value) ← cutWhere? (· == .plain '=') tokens
  let type ← plainChars? (trim type)
  guard (type ≠ [])
  return ⟨String.ofList type, (trim value).flatMap Token.octets⟩

/-- The relative name of the tokens. -/
def rdnOfTokens? (tokens : List Token) : Option Rdn :=
  (pieces (· == .plain '+') tokens).mapM parseAva?

/-- The relative name that the text gives. -/
def parseRdn? (rdn : String) : Option Rdn := do
  let tokens ← tokenize? rdn.toList
  rdnOfTokens? tokens

/-- The relative names that the text gives, that of the entry first.  A blank text is the name of
the root. -/
def parse? (dn : String) : Option (List Rdn) :=
  if Blank.isBlankText dn then some []
  else do
    let tokens ← tokenize? dn.toList
    (pieces (· == .plain ',') tokens).mapM rdnOfTokens?

/-- The characters in front of the first comma that is not escaped, and those behind it if there is
one. -/
def cutAtComma : List Char → List Char × Option (List Char)
  | [] => ([], none)
  | c :: rest =>
    if c = ',' then ([], some rest)
    else if c = '\\' then
      match rest with
      | [] => ([c], none)
      | e :: rest =>
        let (before, behind) := cutAtComma rest
        (c :: e :: before, behind)
    else
      let (before, behind) := cutAtComma rest
      (c :: before, behind)

theorem cutAtComma_comma (cs : List Char) : cutAtComma (',' :: cs) = ([], some cs) := by
  rw [cutAtComma.eq_def]
  rfl

theorem cutAtComma_plain {c : Char} (hcomma : c ≠ ',') (hc : c ≠ '\\') (cs : List Char) :
    cutAtComma (c :: cs) = (c :: (cutAtComma cs).1, (cutAtComma cs).2) := by
  rw [cutAtComma.eq_def]
  simp only [if_neg hcomma, if_neg hc]

/-- A character behind a backslash is no place to cut, whatever it is. -/
theorem cutAtComma_escape (e : Char) (cs : List Char) :
    cutAtComma ('\\' :: e :: cs) = ('\\' :: e :: (cutAtComma cs).1, (cutAtComma cs).2) := by
  rw [cutAtComma.eq_def]
  rfl

/-- The text of the entry's own relative name and the text of its parent's name, if it has one. -/
def splitFirst (dn : String) : String × Option String :=
  let (before, behind) := cutAtComma dn.toList
  (Blank.trim (String.ofList before), behind.map fun cs => Blank.trim (String.ofList cs))

end DirectoryExchange.Dn

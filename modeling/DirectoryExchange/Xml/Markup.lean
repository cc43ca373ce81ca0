import DirectoryExchange.Stream

/-!
# Markup

A document is cut into character data and markup.  `lex` takes up one octet at a time, so that the
markup known after some octets does not depend on those behind them, and gives every piece with
the number of octets taken.  A byte order mark does not belong to the document.  Comments,
instructions and document types have no piece of their own.  A document is broken where something
is begun that is no markup, or never ends.
-/

namespace DirectoryExchange.Xml

/-- A piece of a document. -/
inductive Markup where
  /-- Character data in which references are still to be resolved. -/
  | text (raw : Bytes)
  /-- Character data that stands for itself. -/
  | literal (raw : Bytes)
  /-- A start tag, or a tag that is start and end in one, by what stands between the brackets. -/
  | startTag (content : Bytes) (selfClosing : Bool)
  /-- An end tag, by what stands behind the slash. -/
  | endTag (content : Bytes)
  deriving DecidableEq, Repr

/-- White space between the parts of a tag. -/
def isGap (b : UInt8) : Bool :=
  b == Bytes.space || b == Bytes.tab || b == Bytes.lineFeed || b == Bytes.carriageReturn

/-- Where in a document the next octet stands.  Octets read so far are kept last one first. -/
inductive Position where
  /-- In character data. -/
  | text (sofar : Bytes)
  /-- Behind an opening bracket. -/
  | bracket
  /-- In a start tag, possibly between quotation marks. -/
  | startTag (quote : Option UInt8) (sofar : Bytes)
  /-- In an end tag, possibly between quotation marks. -/
  | endTag (quote : Option UInt8) (sofar : Bytes)
  /-- Behind the question mark that opens an instruction. -/
  | instructionOpening
  /-- In an instruction, possibly behind a question mark. -/
  | instruction (atMark : Bool)
  /-- Behind the exclamation mark of a declaration. -/
  | declaration
  /-- Behind the first hyphen of a comment. -/
  | commentOpening
  /-- In a comment, behind so many hyphens, of which two are enough. -/
  | comment (hyphens : Nat)
  /-- In the opening of a literal section, of which this much is missing. -/
  | literalOpening (missing : Bytes)
  /-- In a literal section. -/
  | literal (sofar : Bytes)
  /-- In the keyword of a document type, of which this much is missing. -/
  | doctypeOpening (missing : Bytes)
  /-- In a document type, between so many brackets, and whether anything has been said. -/
  | doctype (depth : Nat) (named : Bool)
  /-- Behind something that is no markup. -/
  | broken
  deriving DecidableEq, Repr

/-- What brackets, quotation marks and the other marks of markup are as octets. -/
def openBracket : UInt8 := 0x3C

/-- The bracket that closes markup. -/
def closeBracket : UInt8 := 0x3E

/-- The slash that makes a tag an end tag, or a tag without content. -/
def slash : UInt8 := 0x2F

/-- The mark of an instruction. -/
def questionMark : UInt8 := 0x3F

/-- The mark of a declaration. -/
def exclamationMark : UInt8 := 0x21

/-- The hyphen, two of which bound a comment. -/
def hyphen : UInt8 := 0x2D

/-- The bracket, two of which end a literal section. -/
def squareBracket : UInt8 := 0x5D

/-- Whether the octet is a quotation mark. -/
def isQuote (b : UInt8) : Bool := b == 0x22 || b == 0x27

/-- The start tag of that content: a slash at its end makes it an end as well. -/
def tagOf (sofar : Bytes) : Markup :=
  match sofar with
  | b :: rest => if b = slash then .startTag rest.reverse true else .startTag sofar.reverse false
  | [] => .startTag [] false

/-- The keyword of a literal section, behind its first bracket. -/
def literalKeyword : Bytes := [0x43, 0x44, 0x41, 0x54, 0x41, 0x5B]

/-- The keyword of a document type behind its first letter, in lower case. -/
def doctypeKeyword : Bytes := [0x6F, 0x63, 0x74, 0x79, 0x70, 0x65]

/-- Takes up an octet behind an opening bracket. -/
def lexBracket (b : UInt8) : Option Markup × Position :=
  if b = exclamationMark then (none, .declaration)
  else if b = slash then (none, .endTag none [])
  else if b = questionMark then (none, .instructionOpening)
  else if b = closeBracket then (some (tagOf []), .text [])
  else (none, .startTag (if isQuote b then some b else none) [b])

/-- Takes up an octet in a tag: the quotation mark behind which the next one stands, or `none` if
the tag is over. -/
def lexTag (quote : Option UInt8) (b : UInt8) : Option (Option UInt8) :=
  match quote with
  | some q => some (if b = q then none else some q)
  | none => if b = closeBracket then none else some (if isQuote b then some b else none)

/-- Takes up an octet behind the mark of a declaration. -/
def lexDeclaration (b : UInt8) : Position :=
  if b = 0x5B then .literalOpening literalKeyword
  else if b = hyphen then .commentOpening
  else if Bytes.lowerOctet b = 0x64 then .doctypeOpening doctypeKeyword
  else .broken

/-- Takes up an octet: the piece that ends with it, if one does, and where the next one stands. -/
def lexStep : Position → UInt8 → Option Markup × Position
  | .text sofar, b =>
    if b = openBracket then
      (if sofar = [] then none else some (.text sofar.reverse), .bracket)
    else (none, .text (b :: sofar))
  | .bracket, b => lexBracket b
  | .startTag quote sofar, b =>
    match lexTag quote b with
    | some quote => (none, .startTag quote (b :: sofar))
    | none => (some (tagOf sofar), .text [])
  | .endTag quote sofar, b =>
    match lexTag quote b with
    | some quote => (none, .endTag quote (b :: sofar))
    | none => (some (.endTag sofar.reverse), .text [])
  | .instructionOpening, b =>
    if b = closeBracket then (none, .broken) else (none, .instruction (b = questionMark))
  | .instruction atMark, b =>
    if b = closeBracket ∧ atMark then (none, .text []) else (none, .instruction (b = questionMark))
  | .declaration, b => (none, lexDeclaration b)
  | .commentOpening, b => (none, if b = hyphen then .comment 0 else .broken)
  | .comment hyphens, b =>
    if b = hyphen then (none, .comment (hyphens + 1))
    else if b = closeBracket ∧ 2 ≤ hyphens then (none, .text [])
    else (none, .comment 0)
  | .literalOpening missing, b =>
    match missing with
    | [] => (none, .broken)
    | m :: rest =>
      if b ≠ m then (none, .broken)
      else if rest = [] then (none, .literal []) else (none, .literalOpening rest)
  | .literal sofar, b =>
    match sofar with
    | x :: y :: content =>
      if b = closeBracket ∧ x = squareBracket ∧ y = squareBracket then
        (some (.literal content.reverse), .text [])
      else (none, .literal (b :: sofar))
    | _ => (none, .literal (b :: sofar))
  | .doctypeOpening missing, b =>
    match missing with
    | [] => (none, .broken)
    | m :: rest =>
      if Bytes.lowerOctet b ≠ m then (none, .broken)
      else if rest = [] then (none, .doctype 0 false) else (none, .doctypeOpening rest)
  | .doctype depth named, b =>
    if b = openBracket then (none, .doctype (depth + 1) true)
    else if b = closeBracket then
      match depth with
      | 0 => if named then (none, .text []) else (none, .broken)
      | depth + 1 => (none, .doctype depth true)
    else (none, .doctype depth (named || !isGap b))
  | .broken, _ => (none, .broken)

/-- A piece of a document with the number of octets taken when it ends. -/
structure Lexeme where
  /-- The piece. -/
  markup : Markup
  /-- The number of octets taken. -/
  position : Nat
  deriving DecidableEq, Repr

/-- The pieces of a document and where it leaves off, when `taken` octets have led to `p`. -/
def lexFrom (taken : Nat) (p : Position) : Bytes → List Lexeme × Position
  | [] => ([], p)
  | b :: rest =>
    let (markup, p) := lexStep p b
    let (lexemes, final) := lexFrom (taken + 1) p rest
    match markup with
    | some m => (⟨m, taken + 1⟩ :: lexemes, final)
    | none => (lexemes, final)

/-- The number of octets taken when something has been begun that is no markup, or of all of them if
nothing is, when `taken` octets have led to `p`. -/
def brokenAt (taken : Nat) (p : Position) : Bytes → Nat
  | [] => taken
  | b :: rest => if p = .broken then taken else brokenAt (taken + 1) (lexStep p b).2 rest

/-- The octets that may stand in front of a document to say that it is UTF-8. -/
def byteOrderMark : Bytes := [0xEF, 0xBB, 0xBF]

/-- The number of octets of the byte order mark in front of the document.  One that the stream does
not hand out at once is taken for character data. -/
def markLength (source : Source) : Nat :=
  if byteOrderMark.isPrefixOf source.bytes && source.portion.all (byteOrderMark.length ≤ ·) then
    byteOrderMark.length
  else 0

/-- The pieces of a document whose stream fails or `ends` behind it, and whether it is whole: the
stream ends, and does so in character data. -/
def lex (document : Bytes) (ends : Bool) : List Lexeme × Bool :=
  let (lexemes, final) := lexFrom 0 (.text []) document
  match ends, final with
  | false, _ => (lexemes, false)
  | true, .text [] => (lexemes, true)
  | true, .text sofar => (lexemes ++ [⟨.text sofar.reverse, document.length⟩], true)
  | true, _ => (lexemes, false)

end DirectoryExchange.Xml

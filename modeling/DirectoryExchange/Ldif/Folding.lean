import DirectoryExchange.Text.Utf8

/-!
# Folding

A line longer than the width is cut into pieces.  Every piece but the first goes on a line of its
own that begins with a space, which counts towards the width.  Cuts fall between characters; a
character that does not fit on a line has one to itself.
-/

namespace DirectoryExchange.Ldif

/-- Cuts the characters into pieces, where `piece` (last character first) has been begun and has
`room` octets left, and the later pieces have room for `width` octets. -/
def cutPieces (width : Nat) (room : Nat) (piece : List Char) : List Char → List (List Char)
  | [] => [piece.reverse]
  | c :: rest =>
    if piece = [] ∨ Utf8.width c ≤ room then
      cutPieces width (room - Utf8.width c) (c :: piece) rest
    else
      piece.reverse :: cutPieces width (width - Utf8.width c) [c] rest

/-- The pieces of a line; there is always one. -/
def foldPieces (width : Nat) (line : List Char) : List (List Char) :=
  cutPieces (width - 1) width [] line

/-- The physical lines of the pieces behind the first, each with its line feed. -/
def continuations (ps : List (List Char)) : Bytes :=
  ps.flatMap fun p => Bytes.space :: Utf8.encodeChars p ++ [Bytes.lineFeed]

/-- The line as physical lines of at most `width` octets. -/
def fold (width : Nat) (line : String) : Bytes :=
  match foldPieces width line.toList with
  | [] => []
  | p :: ps => Utf8.encodeChars p ++ Bytes.lineFeed :: continuations ps

end DirectoryExchange.Ldif

import DirectoryExchange.Text.Quoted.Table

/-!
# Quoted texts

Messages show texts between quotation marks.  A quotation mark or backslash inside is escaped, four
controls have a letter of their own, and a character that could not be seen, or that would join its
neighbour, is given by its code point.
-/

namespace DirectoryExchange.Quoted

/-- The hexadecimal digits of the number, without leading zeros. -/
def hexDigits (n : Nat) : List Char := Nat.toDigits 16 n

/-- The character by its code point. -/
def byCodePoint (c : Char) : List Char :=
  '\\' :: 'u' :: Char.ofNat 0x7B :: hexDigits c.toNat ++ [Char.ofNat 0x7D]

/-- The control characters, quotation mark and backslash, with the letter that stands for each
behind a backslash. -/
def letters : List (Char × Char) :=
  [(Char.ofNat 0, '0'), ('\t', 't'), ('\r', 'r'), ('\n', 'n'), ('\\', '\\'),
    (Char.ofNat 0x22, Char.ofNat 0x22)]

/-- The character as it is shown between quotation marks. -/
def encodeChar (c : Char) : List Char :=
  match letters.lookup c with
  | some letter => ['\\', letter]
  | none =>
    if inRanges extendingRanges c.toNat || inRanges hiddenRanges c.toNat then byCodePoint c
    else [c]

/-- The text between quotation marks. -/
def quote (s : String) : String :=
  String.ofList ('"' :: s.toList.flatMap encodeChar ++ ['"'])

end DirectoryExchange.Quoted

import DirectoryExchange.Text.Ranges

/-!
# White space

The white space of Unicode (the property `White_Space`), and texts without the white space around
them.
-/

namespace DirectoryExchange.Blank

/-- The ranges of the property `White_Space`. -/
def blankRanges : List (Nat × Nat) :=
  [(0x9, 0xD), (0x20, 0x20), (0x85, 0x85), (0xA0, 0xA0), (0x1680, 0x1680), (0x2000, 0x200A),
    (0x2028, 0x2029), (0x202F, 0x202F), (0x205F, 0x205F), (0x3000, 0x3000)]

/-- Whether the character is white space. -/
def isBlank (c : Char) : Bool := inRanges blankRanges c.toNat

/-- The elements without those at both ends of which `p` holds. -/
def trimBy {α : Type} (p : α → Bool) (xs : List α) : List α :=
  ((xs.dropWhile p).reverse.dropWhile p).reverse

/-- The text without the white space at both ends. -/
def trim (s : String) : String := String.ofList (trimBy isBlank s.toList)

/-- Whether the text holds nothing but white space. -/
def isBlankText (s : String) : Bool := s.toList.all isBlank

end DirectoryExchange.Blank

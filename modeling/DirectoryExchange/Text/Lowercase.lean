import DirectoryExchange.Text.Lowercase.Table

/-!
# Lower case

The lower case of a text as Unicode defines it.  Every character is mapped on its own, except the
capital sigma, which becomes a final sigma behind a cased letter that no cased letter follows.
-/

namespace DirectoryExchange.Lowercase

/-- Whether the character has letter case. -/
def isCased (c : Char) : Bool := inRanges casedRanges c.toNat

/-- Whether the character is passed over in the search for a cased neighbour. -/
def isIgnorable (c : Char) : Bool := inRanges ignorableRanges c.toNat

/-- The lower case of a character on its own. -/
def lowerChar (c : Char) : List Char :=
  if c.toNat = 0x130 then
    [Char.ofNat 0x69, Char.ofNat 0x307]
  else
    match singles.findSome? (·.image? c.toNat) with
    | some n => [Char.ofNat n]
    | none => [c]

/-- Whether the first character that is not passed over is cased. -/
def meetsCased (cs : List Char) : Bool :=
  match cs.dropWhile isIgnorable with
  | [] => false
  | c :: _ => isCased c

/-- The lower case of characters that stand behind `before`, which is given nearest first. -/
def lowerChars (before : List Char) : List Char → List Char
  | [] => []
  | c :: rest =>
    let small :=
      if c.toNat = 0x3A3 then
        if meetsCased before && !meetsCased rest then [Char.ofNat 0x3C2] else [Char.ofNat 0x3C3]
      else
        lowerChar c
    small ++ lowerChars (c :: before) rest

/-- The text in lower case. -/
def lower (s : String) : String := String.ofList (lowerChars [] s.toList)

end DirectoryExchange.Lowercase

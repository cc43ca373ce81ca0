/-!
# Character tables

A property of characters is given by the list of ranges of code points that have it, and a mapping
of characters by a list of arithmetic ranges that are shifted as a whole.  The tables hold the data
of Unicode 17.0, and the one for case folding some of Unicode 18.0 as well.
-/

namespace DirectoryExchange

/-- Whether the code point lies in one of the ranges, ends included. -/
def inRanges (ranges : List (Nat × Nat)) (n : Nat) : Bool :=
  ranges.any fun (first, last) => first ≤ n && n ≤ last

/-- The code points `first, first + step, …, last`, shifted so that `first` becomes `image`. -/
structure MappedRange where
  /-- The first code point. -/
  first : Nat
  /-- The last code point. -/
  last : Nat
  /-- The distance between neighbours. -/
  step : Nat
  /-- What the first code point becomes. -/
  image : Nat

/-- Where the range sends the code point, if the point belongs to it. -/
def MappedRange.image? (r : MappedRange) (n : Nat) : Option Nat :=
  if r.first ≤ n ∧ n ≤ r.last ∧ (n - r.first) % r.step = 0 then
    some (r.image + (n - r.first))
  else
    none

end DirectoryExchange

/-!
# Pieces

Names on a path, the parts of a distinguished name and the values joined in one part are runs of
characters between separators.
-/

namespace DirectoryExchange

/-- The runs between the elements of which `separates` holds; there is always one. -/
def pieces {α : Type} (separates : α → Bool) : List α → List (List α)
  | [] => [[]]
  | x :: rest =>
    if separates x then [] :: pieces separates rest
    else
      match pieces separates rest with
      | [] => [[x]]
      | piece :: others => (x :: piece) :: others

/-- There is always one piece more than separators, and so at least one. -/
theorem pieces_ne_nil {α : Type} (separates : α → Bool) (xs : List α) :
    pieces separates xs ≠ [] := by
  cases xs with
  | nil => simp [pieces]
  | cons x rest =>
    unfold pieces
    split
    · simp
    · split <;> simp

/-- The elements before the first of which `separates` holds and those behind it; `none` if there
is no such element. -/
def cutWhere? {α : Type} (separates : α → Bool) : List α → Option (List α × List α)
  | [] => none
  | x :: rest =>
    if separates x then some ([], rest)
    else (cutWhere? separates rest).map fun (before, behind) => (x :: before, behind)

end DirectoryExchange

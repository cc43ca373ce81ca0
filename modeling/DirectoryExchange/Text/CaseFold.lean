import DirectoryExchange.Text.CaseFold.Table

/-!
# Names without regard to case

Attribute names are compared by their full Unicode case folding: `sameName` holds of two spellings
of one name.  Folding may lengthen a name, as `ß` folds to `ss`.
-/

namespace DirectoryExchange

namespace CaseFold

/-- What the character folds to. -/
def foldChar (c : Char) : List Char :=
  if c.toNat < 0x80 then
    [if 0x41 ≤ c.toNat ∧ c.toNat ≤ 0x5A then Char.ofNat (c.toNat + 0x20) else c]
  else
    match singles.findSome? (·.image? c.toNat) with
    | some n => [Char.ofNat n]
    | none =>
      match expansions.lookup c.toNat with
      | some ns => ns.map Char.ofNat
      | none => [c]

/-- The text with every character folded. -/
def fold (s : String) : List Char := s.toList.flatMap foldChar

end CaseFold

/-- Whether the two spellings name the same attribute. -/
def sameName (a b : String) : Bool := CaseFold.fold a == CaseFold.fold b

/-- Two spellings are of one name if they fold to the same characters. -/
@[simp] theorem sameName_iff (a b : String) :
    sameName a b = true ↔ CaseFold.fold a = CaseFold.fold b := by
  simp [sameName]

theorem sameName_refl (a : String) : sameName a a = true := by simp

theorem sameName_comm (a b : String) : sameName a b = sameName b a := by
  rw [Bool.eq_iff_iff, sameName_iff, sameName_iff, eq_comm]

theorem sameName_trans {a b c : String} (h : sameName a b = true) (k : sameName b c = true) :
    sameName a c = true := by
  rw [sameName_iff] at *
  exact h.trans k

end DirectoryExchange

import Std.Data.TreeMap
import DirectoryExchange.Dn.Basic
import DirectoryExchange.Text.Lowercase

/-!
# Keys

Two spellings of a relative name are the same name if they have the same key: types and values
in lower case, and the pairs in order.  A path is the keys from the root down to an entry.  Paths
are in lexicographic order, so that an entry comes before everything below it.
-/

namespace DirectoryExchange.Dn

/-- A pair of a relative name without regard to case. -/
structure AvaKey where
  /-- The type in lower case. -/
  type : String
  /-- The value with its ASCII letters in lower case. -/
  value : Bytes
  deriving DecidableEq, Repr

namespace AvaKey

/-- Pairs are in the order of their types, and those of one type in the order of their values. -/
instance : Ord AvaKey where
  compare := compareLex (compareOn AvaKey.type) (compareOn AvaKey.value)

instance : Std.TransOrd AvaKey :=
  inferInstanceAs (Std.TransCmp (compareLex (compareOn AvaKey.type) (compareOn AvaKey.value)))

instance : Std.LawfulEqOrd AvaKey where
  eq_of_compare {a b} h := by
    obtain ⟨t, v⟩ := a
    obtain ⟨t', v'⟩ := b
    change (compare t t').then (compare v v') = .eq at h
    rw [Ordering.then_eq_eq] at h
    rw [Std.LawfulEqOrd.eq_of_compare h.1, Std.LawfulEqOrd.eq_of_compare h.2]

end AvaKey

/-- The key of a pair. -/
def Ava.key (a : Ava) : AvaKey := ⟨Lowercase.lower a.type, a.value.lower⟩

/-- Puts a pair in its place among pairs in order. -/
def insertInOrder (a : AvaKey) : List AvaKey → List AvaKey
  | [] => [a]
  | b :: rest => if (compare a b).isLE then a :: b :: rest else b :: insertInOrder a rest

/-- The key of a relative name: the keys of its pairs in order. -/
abbrev RdnKey := List AvaKey

/-- The key of a relative name. -/
def Rdn.key (rdn : Rdn) : RdnKey := (rdn.map Ava.key).foldr insertInOrder []

/-- The keys from the root down to an entry. -/
abbrev Path := List RdnKey

/-- The path of relative names, that of the entry first. -/
def pathOf (rdns : List Rdn) : Path := (rdns.map Rdn.key).reverse

/-- The path that the text gives. -/
def path? (dn : String) : Option Path := (parse? dn).map pathOf

end DirectoryExchange.Dn

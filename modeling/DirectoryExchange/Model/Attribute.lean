import DirectoryExchange.Bytes
import DirectoryExchange.Model.Error
import DirectoryExchange.Text.CaseFold

/-!
# Attributes

An attribute is a name with one or more values in order.  Names are compared without regard to
case; values are octets and compared as such.
-/

namespace DirectoryExchange

/-- The attribute that holds the object classes of an entry. -/
def objectClassName : String := "objectclass"

/-- Whether the name is a spelling of the object class attribute's. -/
def isObjectClass (name : String) : Bool := sameName name objectClassName

/-- A name with its values. -/
structure Attribute where
  /-- The name as it is spelled. -/
  name : String
  /-- The values in order. -/
  values : List Bytes
  /-- There is a name. -/
  name_ne : name ≠ ""
  /-- There are values. -/
  values_ne : values ≠ []
  deriving DecidableEq, Repr

namespace Attribute

/-- The attribute of the name and values; the name is looked at first. -/
def make (name : String) (values : List Bytes) : Except ModelError Attribute :=
  if name_ne : name = "" then .error .emptyAttributeName
  else if values_ne : values = [] then .error (.noValues name)
  else .ok ⟨name, values, name_ne, values_ne⟩

/-- Whether this is the object class attribute. -/
def isObjectClass (a : Attribute) : Bool := DirectoryExchange.isObjectClass a.name

/-- Whether the attributes have the same values, in the same order, under the same name. -/
def agrees (a b : Attribute) : Bool := sameName a.name b.name && a.values == b.values

/-- An attribute is made of its own name and values alone. -/
@[simp] theorem make_eq_ok_iff {name : String} {values : List Bytes} {a : Attribute} :
    make name values = .ok a ↔ a.name = name ∧ a.values = values := by
  obtain ⟨n, vs, hn, hvs⟩ := a
  unfold make
  split
  · next h => simp; rintro rfl; exact absurd h hn
  · split
    · next h => simp; rintro rfl rfl; exact absurd h hvs
    · simp [eq_comm]

end Attribute

end DirectoryExchange

import DirectoryExchange.Directory.AttributeBag

/-!
# Filters

A filter says which entries a search finds: by the presence of an attribute, by a value that it
has, or by other filters.
-/

namespace DirectoryExchange

/-- A condition on the attributes of an entry. -/
inductive Filter where
  /-- All of the filters hold. -/
  | and (filters : List Filter)
  /-- One of the filters holds. -/
  | or (filters : List Filter)
  /-- The filter does not hold. -/
  | not (filter : Filter)
  /-- There is an attribute of that name. -/
  | present (name : String)
  /-- The attribute of that name has the value, up to the case of ASCII letters. -/
  | equal (name : String) (value : Bytes)
  deriving Repr

namespace Filter

/-- Whether one of the values is that value up to the case of ASCII letters. -/
def hasValue (values : List Bytes) (value : Bytes) : Bool :=
  values.any fun v => v.sameIgnoringCase value

mutual

/-- Whether the filter holds of the attributes.  Every entry has an object class, whether one is
stored or not. -/
def holds (bag : AttributeBag) : Filter → Bool
  | and filters => allHold bag filters
  | or filters => anyHolds bag filters
  | not filter => !filter.holds bag
  | present name => isObjectClass name || (bag.get? name).isSome
  | equal name value => (bag.get? name).any fun values => hasValue values value

/-- Whether all of the filters hold. -/
def allHold (bag : AttributeBag) : List Filter → Bool
  | [] => true
  | filter :: rest => filter.holds bag && allHold bag rest

/-- Whether one of the filters holds. -/
def anyHolds (bag : AttributeBag) : List Filter → Bool
  | [] => false
  | filter :: rest => filter.holds bag || anyHolds bag rest

end

end Filter

end DirectoryExchange

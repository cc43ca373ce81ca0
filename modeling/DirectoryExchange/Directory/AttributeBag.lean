import DirectoryExchange.Failure
import DirectoryExchange.Model.Change

/-!
# Attribute bags

The attributes of an entry in a directory, in the order in which they came.  Values are added and
deleted one by one; a step that fails leaves what was done before it, and it is for the directory to
undo that.
-/

namespace DirectoryExchange

/-- Attributes by their names. -/
structure AttributeBag where
  /-- The attributes in order. -/
  attributes : List (String × List Bytes) := []
  deriving DecidableEq, Repr

namespace AttributeBag

/-- The bag of the attributes. -/
def ofAttributes (attributes : List Attribute) : AttributeBag :=
  ⟨attributes.map fun a => (a.name, a.values)⟩

/-- The values of the attribute of that name, in any spelling. -/
def get? (b : AttributeBag) (name : String) : Option (List Bytes) :=
  (b.attributes.find? fun (spelling, _) => sameName spelling name).map (·.2)

/-- The attributes with these values for the name.  The attribute keeps its place and spelling; a
new one comes last. -/
def putInto (name : String) (values : List Bytes) :
    List (String × List Bytes) → List (String × List Bytes)
  | [] => [(name, values)]
  | (spelling, held) :: rest =>
    if sameName spelling name then (spelling, values) :: rest
    else (spelling, held) :: putInto name values rest

/-- The bag with these values for the name. -/
def put (b : AttributeBag) (name : String) (values : List Bytes) : AttributeBag :=
  ⟨putInto name values b.attributes⟩

/-- The bag without the attribute of that name. -/
def remove (b : AttributeBag) (name : String) : AttributeBag :=
  ⟨b.attributes.eraseP fun (spelling, _) => sameName spelling name⟩

/-- Adds values one by one up to the first that is held already; whether there was none, and the
values then held. -/
def pushDistinct (held : List Bytes) : List Bytes → Bool × List Bytes
  | [] => (true, held)
  | value :: rest =>
    if value ∈ held then (false, held) else pushDistinct (held ++ [value]) rest

/-- Takes away values one by one up to the first that is not held; whether there was none, and the
values then held. -/
def takeAway (held : List Bytes) : List Bytes → Bool × List Bytes
  | [] => (true, held)
  | value :: rest =>
    if value ∈ held then takeAway (held.erase value) rest else (false, held)

/-- The error of a modification without values to add. -/
def noValuesToAdd (name : String) : DirectoryError :=
  ⟨.protocolError, s!"no values to add to {Quoted.quote name}"⟩

/-- The error of a value that is there already. -/
def valueExists (name : String) : DirectoryError :=
  ⟨.attributeOrValueExists, s!"attribute {Quoted.quote name} already has the value"⟩

/-- The error of an attribute or value that is not there. -/
def noSuchAttribute (name : String) : DirectoryError :=
  ⟨.noSuchAttribute, s!"no such attribute or value: {Quoted.quote name}"⟩

/-- Adds values to the attribute of that name. -/
def add (b : AttributeBag) (name : String) (values : List Bytes) :
    Except DirectoryError Unit × AttributeBag :=
  if values = [] then (.error (noValuesToAdd name), b)
  else
    let (whole, held) := pushDistinct ((b.get? name).getD []) values
    (if whole then .ok () else .error (valueExists name), b.put name held)

/-- Deletes values of the attribute of that name, or the whole attribute if none are given.  An
attribute whose last value goes does not stay. -/
def delete (b : AttributeBag) (name : String) (values : List Bytes) :
    Except DirectoryError Unit × AttributeBag :=
  match b.get? name with
  | none => (.error (noSuchAttribute name), b)
  | some held =>
    if values = [] then (.ok (), b.remove name)
    else
      match takeAway held values with
      | (true, []) => (.ok (), b.remove name)
      | (true, left) => (.ok (), b.put name left)
      | (false, left) => (.error (noSuchAttribute name), b.put name left)

/-- Replaces the values of the attribute of that name; without values, nothing of it stays. -/
def replace (b : AttributeBag) (name : String) (values : List Bytes) : AttributeBag :=
  if values = [] then b.remove name else b.put name values

/-- Carries out a modification. -/
def apply (b : AttributeBag) (m : Modification) : Except DirectoryError Unit × AttributeBag :=
  match m.kind with
  | .add => b.add m.name m.values
  | .delete => b.delete m.name m.values
  | .replace => (.ok (), b.replace m.name m.values)

/-- The bag behind all modifications, if none fails. -/
def applyAll (b : AttributeBag) : List Modification → Except DirectoryError AttributeBag
  | [] => .ok b
  | m :: rest =>
    match b.apply m with
    | (.ok _, b) => b.applyAll rest
    | (.error e, _) => .error e

/-- The entry of that name with the attributes of the bag.  That they make no entry is a fault of
the directory. -/
def toEntry (b : AttributeBag) (dn : String) : Except DirectoryError Entry :=
  let entry := do
    let attributes ← b.attributes.mapM fun (name, values) => Attribute.make name values
    Entry.make dn attributes
  entry.mapError fun e => ⟨.operationsError, e.message⟩

end AttributeBag

end DirectoryExchange

import DirectoryExchange.Model.Entry

/-!
# Change records

A change record is an operation on a directory, addressed by a distinguished name: to add an
entry, delete it, modify its attributes, or rename it.
-/

namespace DirectoryExchange

/-- What a modification does with its values. -/
inductive ModificationKind where
  | add
  | delete
  | replace
  deriving DecidableEq, Repr

/-- The word for the kind of modification. -/
def ModificationKind.word : ModificationKind → String
  | add => "add"
  | delete => "delete"
  | replace => "replace"

/-- One step of a modify record.  Without values, to delete is to remove the whole attribute, and
to replace is to leave nothing of it. -/
@[ext]
structure Modification where
  /-- What to do. -/
  kind : ModificationKind
  /-- The name of the attribute. -/
  name : String
  /-- The values in order. -/
  values : List Bytes
  /-- There is a name. -/
  name_ne : name ≠ ""
  /-- There is something to add. -/
  add_values_ne : kind = .add → values ≠ []
  deriving Repr

namespace Modification

instance : DecidableEq Modification := fun _ _ => decidable_of_iff _ Modification.ext_iff.symm

/-- The modification of the parts; the name is looked at first. -/
def make (kind : ModificationKind) (name : String) (values : List Bytes) :
    Except ModelError Modification :=
  if name_ne : name = "" then .error .emptyAttributeName
  else if values_ne : kind = .add ∧ values = [] then .error (.noValues name)
  else .ok ⟨kind, name, values, name_ne, fun h k => values_ne ⟨h, k⟩⟩

/-- Whether the modifications do the same to the same attribute. -/
def agrees (m n : Modification) : Bool :=
  m.kind == n.kind && sameName m.name n.name && m.values == n.values

/-- A modification is made of its own kind, name and values alone. -/
@[simp] theorem make_eq_ok_iff {kind : ModificationKind} {name : String}
    {values : List Bytes} {m : Modification} :
    make kind name values = .ok m ↔
      m.kind = kind ∧ m.name = name ∧ m.values = values := by
  obtain ⟨k, a, vs, ha, hvs⟩ := m
  unfold make
  split
  · next h => simp; rintro rfl rfl; exact absurd h ha
  · split
    · next h => simp; rintro rfl rfl rfl; exact absurd h.2 (hvs h.1)
    · simp [eq_comm]

end Modification

/-- A new relative name for an entry, and possibly a new place. -/
@[ext]
structure Rename where
  /-- The new relative name. -/
  newRdn : String
  /-- Whether the values of the old relative name go. -/
  deleteOldRdn : Bool
  /-- The new parent, if the entry moves. -/
  newSuperior : Option String
  /-- There is a new relative name. -/
  newRdn_ne : newRdn ≠ ""
  /-- A new parent has a name. -/
  newSuperior_ne : newSuperior ≠ some ""
  deriving Repr

instance : DecidableEq Rename := fun _ _ => decidable_of_iff _ Rename.ext_iff.symm

/-- An operation on a directory. -/
inductive ChangeRecord where
  /-- Adds the entry. -/
  | add (entry : Entry)
  /-- Deletes the entry of that name. -/
  | delete (dn : String) (dn_ne : dn ≠ "")
  /-- Modifies the attributes of the entry of that name, step by step. -/
  | modify (dn : String) (steps : List Modification) (dn_ne : dn ≠ "") (steps_ne : steps ≠ [])
  /-- Gives the entry of that name, and all below it, another name. -/
  | rename (dn : String) (rename : Rename) (dn_ne : dn ≠ "")
  deriving Repr

namespace ChangeRecord

/-- The parts that tell records apart. -/
def parts : ChangeRecord → Entry ⊕ String ⊕ String × List Modification ⊕ String × Rename
  | add entry => .inl entry
  | delete dn _ => .inr (.inl dn)
  | modify dn steps _ _ => .inr (.inr (.inl (dn, steps)))
  | rename dn r _ => .inr (.inr (.inr (dn, r)))

theorem parts_inj {r s : ChangeRecord} : r.parts = s.parts ↔ r = s := by
  cases r <;> cases s <;> simp [parts]

instance : DecidableEq ChangeRecord := fun _ _ => decidable_of_iff _ parts_inj

/-- The name of the entry to be changed. -/
def dn : ChangeRecord → String
  | add entry => entry.dn
  | delete dn _ => dn
  | modify dn _ _ _ => dn
  | rename dn _ _ => dn

/-- The word for the kind of change. -/
def kind : ChangeRecord → String
  | add _ => "add"
  | delete _ _ => "delete"
  | modify _ _ _ _ => "modify"
  | rename _ _ _ => "modrdn"

/-- The record that deletes. -/
def makeDelete (dn : String) : Except ModelError ChangeRecord :=
  if dn_ne : dn = "" then .error .emptyDn else .ok (.delete dn dn_ne)

/-- The record that modifies; the name is looked at first. -/
def makeModify (dn : String) (steps : List Modification) : Except ModelError ChangeRecord :=
  if dn_ne : dn = "" then .error .emptyDn
  else if steps_ne : steps = [] then .error .noModifications
  else .ok (.modify dn steps dn_ne steps_ne)

/-- The record that renames; the names are looked at in order. -/
def makeRename (dn newRdn : String) (deleteOldRdn : Bool) (newSuperior : Option String) :
    Except ModelError ChangeRecord :=
  if dn_ne : dn = "" then .error .emptyDn
  else if newRdn_ne : newRdn = "" then .error .emptyNewRdn
  else if newSuperior_ne : newSuperior = some "" then .error .emptyDn
  else .ok (.rename dn ⟨newRdn, deleteOldRdn, newSuperior, newRdn_ne, newSuperior_ne⟩ dn_ne)

/-- Whether the records are the same up to the case of attribute names. -/
def agrees : ChangeRecord → ChangeRecord → Bool
  | add e, add f => e.agrees f
  | delete d _, delete d' _ => d == d'
  | modify d ms _ _, modify d' ms' _ _ =>
    d == d' && ms.length == ms'.length && (ms.zip ms').all fun (m, n) => m.agrees n
  | rename d r _, rename d' r' _ => d == d' && r == r'
  | _, _ => false

end ChangeRecord

end DirectoryExchange

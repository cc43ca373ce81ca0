import DirectoryExchange.Model.Attribute

/-!
# Entries

An entry is a distinguished name with attributes, no two of which have the same name.  The name is
opaque here: its structure matters only to a directory.  `EntryDraft` gathers values one by one
under names that may be repeated in any spelling, as both formats give them.
-/

namespace DirectoryExchange

/-- The first attribute whose name is that of one seen before it. -/
def firstRepeated? (seen : List Attribute) : List Attribute → Option Attribute
  | [] => none
  | a :: rest =>
    if seen.any fun b => sameName b.name a.name then some a else firstRepeated? (a :: seen) rest

/-- No name is repeated if none is among those seen before, and all are different. -/
theorem firstRepeated?_eq_none_iff {seen attributes : List Attribute} :
    firstRepeated? seen attributes = none ↔
      (∀ a ∈ attributes, ∀ b ∈ seen, ¬ sameName b.name a.name) ∧
        attributes.Pairwise fun a b => ¬ sameName a.name b.name := by
  induction attributes generalizing seen with
  | nil => simp [firstRepeated?]
  | cons a rest ih =>
    unfold firstRepeated?
    split
    · next h =>
      obtain ⟨b, hb, hs⟩ := List.any_eq_true.1 h
      simp only [reduceCtorEq, false_iff, not_and]
      intro hall
      exact absurd hs (hall a (by simp) b hb)
    · next h =>
      simp only [List.any_eq_true, not_exists, not_and] at h
      rw [ih, List.pairwise_cons]
      constructor
      · rintro ⟨h₁, h₂⟩
        refine ⟨?_, fun b hb => h₁ b hb a (by simp), h₂⟩
        intro x hx b hb
        rcases List.mem_cons.1 hx with rfl | hx
        · exact h b hb
        · exact h₁ x hx b (by simp [hb])
      · rintro ⟨h₁, h₂, h₃⟩
        refine ⟨?_, h₃⟩
        intro x hx b hb
        rcases List.mem_cons.1 hb with rfl | hb
        · exact h₂ x hx
        · exact h₁ x (by simp [hx]) b hb

/-- A distinguished name with attributes of different names. -/
@[ext]
structure Entry where
  /-- The distinguished name. -/
  dn : String
  /-- The attributes in order. -/
  attributes : List Attribute
  /-- There is a distinguished name. -/
  dn_ne : dn ≠ ""
  /-- No two attributes have the same name. -/
  distinct : attributes.Pairwise fun a b => ¬ sameName a.name b.name
  deriving Repr

namespace Entry

instance : DecidableEq Entry := fun _ _ => decidable_of_iff _ Entry.ext_iff.symm

/-- The entry of the name and attributes; the name is looked at first. -/
def make (dn : String) (attributes : List Attribute) : Except ModelError Entry :=
  if dn_ne : dn = "" then .error .emptyDn
  else
    match h : firstRepeated? [] attributes with
    | some a => .error (.duplicateAttribute a.name)
    | none => .ok ⟨dn, attributes, dn_ne, (firstRepeated?_eq_none_iff.1 h).2⟩

/-- The attribute of that name, in any spelling. -/
def attribute? (e : Entry) (name : String) : Option Attribute :=
  e.attributes.find? fun a => sameName a.name name

/-- The object classes in order. -/
def objectClasses (e : Entry) : List Bytes :=
  match e.attribute? objectClassName with
  | some a => a.values
  | none => []

/-- Whether the entries have the same name and, in order, agreeing attributes. -/
def agrees (e f : Entry) : Bool :=
  e.dn == f.dn && e.attributes.length == f.attributes.length &&
    (e.attributes.zip f.attributes).all fun (a, b) => a.agrees b

/-- An entry is made of its own name and attributes alone. -/
@[simp] theorem make_eq_ok_iff {dn : String} {attributes : List Attribute} {e : Entry} :
    make dn attributes = .ok e ↔ e.dn = dn ∧ e.attributes = attributes := by
  obtain ⟨d, as, hd, has⟩ := e
  unfold make
  split
  · next h => simp; rintro rfl; exact absurd h hd
  · split
    · next a h =>
      simp
      rintro rfl rfl
      have := (@firstRepeated?_eq_none_iff [] as).2 ⟨by simp, has⟩
      simp_all
    · simp [eq_comm]

/-- Every entry can be made of its parts again. -/
theorem make_dn_attributes (e : Entry) : make e.dn e.attributes = .ok e := by simp

end Entry

/-- An entry in the making: values gathered under the first spelling of their name. -/
structure EntryDraft where
  /-- The distinguished name. -/
  dn : String
  /-- The values gathered so far. -/
  groups : List (String × List Bytes) := []
  deriving DecidableEq, Repr

namespace EntryDraft

/-- Adds a value to the group of its name, or as a new last group. -/
def addTo (name : String) (value : Bytes) :
    List (String × List Bytes) → List (String × List Bytes)
  | [] => [(name, [value])]
  | (spelling, values) :: rest =>
    if sameName spelling name then (spelling, values ++ [value]) :: rest
    else (spelling, values) :: addTo name value rest

/-- Gathers a value. -/
def push (d : EntryDraft) (name : String) (value : Bytes) : EntryDraft :=
  { d with groups := addTo name value d.groups }

/-- Gathers values of one name; no values leave no trace. -/
def pushAll (d : EntryDraft) (name : String) (values : List Bytes) : EntryDraft :=
  values.foldl (fun d value => d.push name value) d

/-- The entry of what was gathered. -/
def build (d : EntryDraft) : Except ModelError Entry := do
  let attributes ← d.groups.mapM fun (name, values) => Attribute.make name values
  Entry.make d.dn attributes

@[simp] theorem dn_push (d : EntryDraft) (name : String) (value : Bytes) :
    (d.push name value).dn = d.dn := rfl

@[simp] theorem groups_push (d : EntryDraft) (name : String) (value : Bytes) :
    (d.push name value).groups = addTo name value d.groups := rfl

@[simp] theorem pushAll_nil (d : EntryDraft) (name : String) : d.pushAll name [] = d := rfl

@[simp] theorem pushAll_cons (d : EntryDraft) (name : String) (value : Bytes)
    (values : List Bytes) :
    d.pushAll name (value :: values) = (d.push name value).pushAll name values := rfl

end EntryDraft

end DirectoryExchange

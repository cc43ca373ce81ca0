import DirectoryExchange.Dsml.Reader
import DirectoryExchange.Proofs.Model.Merge
import DirectoryExchange.Proofs.Xml.Forest

/-!
# Documents as trees

What a document gives can be told by a walk over its tree: there is one item for each `entry` in
each `directory-entries` in the root, and it is made of the values found in the entry (`IsItem`).
There always is such an item (`isItem_outcome`), and only one (`IsItem.unique`).
-/

namespace DirectoryExchange.Dsml

open Xml

/-! ### What a tree says -/

/-- The elements of that name in the namespace of the format. -/
def elementsNamed (name : String) (elements : List (Tag × Forest)) : List (Tag × Forest) :=
  elements.filter fun e => isElement e.1 name

section

variable {name : String} {e : Tag × Forest}

@[simp] lemma elementsNamed_nil : elementsNamed name [] = [] := rfl

lemma elementsNamed_cons_of_pos (h : isElement e.1 name) (elements : List (Tag × Forest)) :
    elementsNamed name (e :: elements) = e :: elementsNamed name elements :=
  List.filter_cons_of_pos h

lemma elementsNamed_cons_of_neg (h : ¬ isElement e.1 name) (elements : List (Tag × Forest)) :
    elementsNamed name (e :: elements) = elementsNamed name elements :=
  List.filter_cons_of_neg h

end

/-- The elements of that name that an element contains. -/
def childrenNamed (name : String) (e : Tag × Forest) : List (Tag × Forest) :=
  elementsNamed name e.2.elements

/-- The value that an element gives, unless it is to be decoded and cannot be. -/
def valueOf (e : Tag × Forest) : Option Bytes :=
  if e.1.attribute? "encoding" = some "base64" then
    Base64.decode? (Utf8.decodeLossy e.2.characters)
  else some e.2.characters

/-- What an element of an entry says: its values, each with the name of the attribute, if that has
one. -/
def saidBy (e : Tag × Forest) : List (Option String × Option Bytes) :=
  if isElement e.1 "objectclass" then
    (childrenNamed "oc-value" e).map fun v => (some objectClassName, valueOf v)
  else if isElement e.1 "attr" then
    (childrenNamed "value" e).map fun v => (e.1.attribute? "name", valueOf v)
  else []

/-- What is said in an entry. -/
def saidIn (inside : Forest) : List (Option String × Option Bytes) :=
  inside.elements.flatMap saidBy

/-- The values that have a name; an empty one is none. -/
def pairsOf (said : List (Option String × Option Bytes)) : List (String × Bytes) :=
  said.filterMap fun
    | (some name, some value) => if name = "" then none else some (name, value)
    | _ => none

/-- The distinguished name that an entry gives, empty if it gives none. -/
def dnOf (tag : Tag) : String := (tag.attribute? "dn").getD ""

/-- The item for the entry of that number, which depends on the element alone. -/
inductive IsItem (number : Nat) (e : Tag × Forest) : Except ParseError ChangeRecord → Prop
  /-- There is no distinguished name. -/
  | nameless (hdn : dnOf e.1 = "") :
      IsItem number e (.error (.recoverable (.invalidRecord .emptyDn) (entryLocation number)))
  /-- A value cannot be decoded. -/
  | undecodable (hdn : dnOf e.1 ≠ "") (hvalue : ∃ p ∈ saidIn e.2, p.2 = none) :
      IsItem number e (.error (.recoverable .invalidBase64 (entryLocation number)))
  /-- The entry is added. -/
  | added {entry : Entry} (hdn : entry.dn = dnOf e.1) (hvalues : ∀ p ∈ saidIn e.2, p.2 ≠ none)
      (hattributes : (entry.attributes.map fun a => (a.name, a.values)) =
        merged (pairsOf (saidIn e.2))) :
      IsItem number e (.ok (.add entry))

/-- The entries of a document, given its root element. -/
def entriesIn (root : Tag × Forest) : List (Tag × Forest) :=
  (childrenNamed "directory-entries" root).flatMap (childrenNamed "entry")

/-- What a tree says of an entry is one item. -/
theorem IsItem.unique {number : Nat} {e : Tag × Forest} {o o' : Except ParseError ChangeRecord}
    (h : IsItem number e o) (h' : IsItem number e o') : o = o' := by
  cases h with
  | nameless hdn =>
    cases h' with
    | nameless => rfl
    | undecodable hdn' => exact absurd hdn hdn'
    | added hdn' => exact absurd (hdn'.trans hdn) (Entry.dn_ne _)
  | undecodable hdn hvalue =>
    cases h' with
    | nameless hdn' => exact absurd hdn' hdn
    | undecodable => rfl
    | added _ hvalues =>
      obtain ⟨p, hp, hnone⟩ := hvalue
      exact absurd hnone (hvalues p hp)
  | added hdn hvalues hattributes =>
    cases h' with
    | nameless hdn' => exact absurd (hdn.trans hdn') (Entry.dn_ne _)
    | undecodable _ hvalue =>
      obtain ⟨p, hp, hnone⟩ := hvalue
      exact absurd hnone (hvalues p hp)
    | @added entry' hdn' _ hattributes' =>
      -- attributes are told by their names and values, since the rest of them are proofs
      have hsame : ∀ a b : Attribute, (a.name, a.values) = (b.name, b.values) → a = b := by
        rintro ⟨name, values, _, _⟩ ⟨name', values', _, _⟩ h
        obtain ⟨rfl, rfl⟩ := Prod.mk.inj h
        rfl
      have hentry := Entry.ext (hdn.trans hdn'.symm)
        ((List.map_inj_right hsame).1 (hattributes.trans hattributes'.symm))
      rw [hentry]

/-! ### Entries that are read -/

/-- What is said in two parts gives the pairs of the first and then those of the second. -/
lemma pairsOf_append (said more : List (Option String × Option Bytes)) :
    pairsOf (said ++ more) = pairsOf said ++ pairsOf more :=
  List.filterMap_append

/-- Values without a name give no pairs. -/
lemma name_ne_of_mem_pairsOf (said : List (Option String × Option Bytes)) :
    ∀ p ∈ pairsOf said, p.1 ≠ "" := by
  intro p hp
  obtain ⟨⟨_ | name, _ | value⟩, -, hpair⟩ := List.mem_filterMap.1 hp
  · cases hpair
  · cases hpair
  · cases hpair
  · by_cases hname : name = ""
    · simp [hname] at hpair
    · simp only [hname, if_false, Option.some.injEq] at hpair
      rwa [← hpair]

/-- A value that cannot be decoded, as a fault. -/
def faultOf (values : List (Option Bytes)) : Option ParseErrorKind :=
  if none ∈ values then some .invalidBase64 else none

/-- The fault of values in two parts is the first one. -/
lemma faultOf_append (values more : List (Option Bytes)) :
    faultOf (values ++ more) = (faultOf values).or (faultOf more) := by
  unfold faultOf
  by_cases hvalues : none ∈ values
  · rw [if_pos (List.mem_append_left _ hvalues), if_pos hvalues]
    rfl
  · rw [if_neg hvalues, Option.none_or]
    by_cases hmore : none ∈ more
    · rw [if_pos (List.mem_append_right _ hmore), if_pos hmore]
    · rw [if_neg fun h => (List.mem_append.1 h).elim hvalues hmore, if_neg hmore]

namespace OpenEntry

/-- The entry behind what is said. -/
def hear (e : OpenEntry) (said : List (Option String × Option Bytes)) : OpenEntry :=
  ⟨e.draft.pushPairs (pairsOf said), e.fault.or (faultOf (said.map (·.2)))⟩

@[simp] lemma hear_nil (e : OpenEntry) : e.hear [] = e := by simp [hear, pairsOf, faultOf]

/-- What is said in two parts is heard part by part. -/
lemma hear_append (e : OpenEntry) (said more : List (Option String × Option Bytes)) :
    e.hear (said ++ more) = (e.hear said).hear more := by
  rw [hear, hear, hear, pairsOf_append, List.map_append, faultOf_append,
    EntryDraft.pushPairs_append, Option.or_assoc]

end OpenEntry

/-- What an entry gives that has been read. -/
def outcomeOf (number : Nat) (e : Tag × Forest) : Except ParseError ChangeRecord :=
  ((OpenEntry.ofTag e.1).hear (saidIn e.2)).outcome (entryLocation number)

/-- An entry that has been read gives its item. -/
theorem isItem_outcomeOf (number : Nat) (e : Tag × Forest) :
    IsItem number e (outcomeOf number e) := by
  by_cases hdn : dnOf e.1 = ""
  · have hfault : ((OpenEntry.ofTag e.1).hear (saidIn e.2)).fault =
        some (.invalidRecord .emptyDn) := by
      rw [OpenEntry.hear, OpenEntry.ofTag, ← dnOf, if_pos hdn, Option.some_or]
    rw [outcomeOf, OpenEntry.outcome, hfault]
    exact .nameless hdn
  · have hfault : ((OpenEntry.ofTag e.1).hear (saidIn e.2)).fault =
        faultOf ((saidIn e.2).map (·.2)) := by
      rw [OpenEntry.hear, OpenEntry.ofTag, ← dnOf, if_neg hdn, Option.none_or]
    by_cases hvalue : none ∈ (saidIn e.2).map (·.2)
    · rw [outcomeOf, OpenEntry.outcome, hfault, faultOf, if_pos hvalue]
      exact .undecodable hdn (List.mem_map.1 hvalue)
    · obtain ⟨entry, hentry⟩ := exists_build_pushPairs hdn (name_ne_of_mem_pairsOf (saidIn e.2))
      have hdraft : ((OpenEntry.ofTag e.1).hear (saidIn e.2)).draft =
          EntryDraft.pushPairs { dn := dnOf e.1 } (pairsOf (saidIn e.2)) := rfl
      rw [outcomeOf, OpenEntry.outcome, hfault, faultOf, if_neg hvalue, hdraft, hentry]
      rw [EntryDraft.pushPairs_eq, EntryDraft.build_eq_ok_iff] at hentry
      refine .added hentry.1 ?_ hentry.2
      exact fun p hp hnone => hvalue (List.mem_map.2 ⟨p, hp, hnone⟩)

end DirectoryExchange.Dsml

import DirectoryExchange.Proofs.Model.Draft
import Mathlib.Data.List.Pairwise

/-!
# Object classes in front

One of the formats gives the object classes of an entry a place of their own, in front of the other
attributes and under the usual spelling of their name.  `Entry.objectClassFirst` is what is left of
an entry there.
-/

namespace DirectoryExchange

/-- The object class attribute under its own spelling. -/
def Attribute.spellObjectClass (a : Attribute) : Attribute :=
  { a with name := objectClassName, name_ne := by decide }

/-- The entry with its object class attribute, if it has one, in front and in its own spelling. -/
def Entry.objectClassFirst (e : Entry) : Entry where
  dn := e.dn
  attributes := ((e.attribute? objectClassName).map Attribute.spellObjectClass).toList ++
    e.attributes.filter fun a => !a.isObjectClass
  dn_ne := e.dn_ne
  distinct := by
    have hrest := e.distinct.filter fun a => !a.isObjectClass
    cases e.attribute? objectClassName with
    | none => exact hrest
    | some a =>
      refine List.pairwise_cons.2 ⟨?_, hrest⟩
      intro b hb
      have hother : b.isObjectClass = false := by simpa using (List.mem_filter.1 hb).2
      rw [sameName_comm]
      exact Bool.eq_false_iff.1 hother

lemma Attribute.isObjectClass_spellObjectClass (a : Attribute) :
    a.spellObjectClass.isObjectClass = true := by
  change DirectoryExchange.isObjectClass objectClassName = true
  decide

namespace Entry

/-- An attribute of an entry is found under every spelling of its name. -/
lemma attribute?_eq_some {e : Entry} {a : Attribute} {name : String} (ha : a ∈ e.attributes)
    (hname : sameName a.name name) : e.attribute? name = some a := by
  have hsymm : Std.Symm fun a b : Attribute => ¬ sameName a.name b.name :=
    ⟨fun a b h => by rwa [sameName_comm]⟩
  cases hfound : e.attribute? name with
  | none => exact absurd hname (List.find?_eq_none.1 hfound a ha)
  | some b =>
    have hb : sameName b.name name :=
      List.find?_some (p := fun a : Attribute => sameName a.name name) hfound
    rw [sameName_comm] at hb
    by_contra hne
    have hother := e.distinct.forall ha (List.mem_of_find?_eq_some hfound)
    exact hother (fun h => hne (congrArg some h.symm)) (sameName_trans hname hb)

/-- The object classes are the values of the attribute of that name, however it is spelled. -/
lemma mem_objectClasses_iff {e : Entry} {v : Bytes} :
    v ∈ e.objectClasses ↔ ∃ a ∈ e.attributes, a.isObjectClass = true ∧ v ∈ a.values := by
  rw [objectClasses]
  constructor
  · intro h
    cases hfound : e.attribute? objectClassName with
    | none => simp [hfound] at h
    | some a =>
      rw [hfound] at h
      have ha : a.isObjectClass = true := List.find?_some (p := Attribute.isObjectClass) hfound
      exact ⟨a, List.mem_of_find?_eq_some hfound, ha, h⟩
  · rintro ⟨a, ha, hname, hv⟩
    rwa [attribute?_eq_some ha hname]

/-- The object class stands in front of the others, which keep their order. -/
lemma attributes_objectClassFirst (e : Entry) : e.objectClassFirst.attributes =
    ((e.attribute? objectClassName).map Attribute.spellObjectClass).toList ++
      e.attributes.filter fun a => !a.isObjectClass := rfl

/-- The object classes are the same in front. -/
lemma objectClasses_objectClassFirst (e : Entry) :
    e.objectClassFirst.objectClasses = e.objectClasses := by
  have hattribute : e.objectClassFirst.attribute? objectClassName =
      (e.attribute? objectClassName).map Attribute.spellObjectClass := by
    rw [attribute?, attributes_objectClassFirst]
    cases e.attribute? objectClassName with
    | none =>
      rw [Option.map_none, Option.toList_none, List.nil_append, List.find?_eq_none]
      intro a ha hname
      have hother := (List.mem_filter.1 ha).2
      rw [Attribute.isObjectClass, DirectoryExchange.isObjectClass, hname] at hother
      exact absurd hother (by decide)
    | some a => exact List.find?_cons_of_pos a.isObjectClass_spellObjectClass
  rw [objectClasses, objectClasses, hattribute]
  cases e.attribute? objectClassName <;> rfl

/-- The other attributes are the same behind the object classes. -/
lemma filter_objectClassFirst (e : Entry) :
    (e.objectClassFirst.attributes.filter fun a => !a.isObjectClass) =
      e.attributes.filter fun a => !a.isObjectClass := by
  have hnone : ((e.attribute? objectClassName).map Attribute.spellObjectClass).toList.filter
      (fun a => !a.isObjectClass) = [] := by
    cases e.attribute? objectClassName with
    | none => rfl
    | some a => simp [a.isObjectClass_spellObjectClass]
  rw [attributes_objectClassFirst, List.filter_append, hnone, List.nil_append, List.filter_filter]
  simp only [Bool.and_self]

end Entry

/-- What is gathered of an entry is the entry with its object classes in front. -/
theorem EntryDraft.build_objectClassFirst (e : Entry) :
    (({ dn := e.dn : EntryDraft }.pushAll objectClassName e.objectClasses).gather
      (e.attributes.filter fun a => !a.isObjectClass)).build = .ok e.objectClassFirst := by
  have hdraft : ({ dn := e.dn : EntryDraft }.pushAll objectClassName e.objectClasses).gather
      (e.attributes.filter fun a => !a.isObjectClass) =
      EntryDraft.gather { dn := e.dn } e.objectClassFirst.attributes := by
    rw [Entry.attributes_objectClassFirst, Entry.objectClasses]
    cases e.attribute? objectClassName <;> rfl
  rw [hdraft]
  exact EntryDraft.build_gather e.objectClassFirst

end DirectoryExchange

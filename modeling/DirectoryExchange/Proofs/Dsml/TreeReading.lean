import DirectoryExchange.Proofs.Dsml.TreeWalk
import DirectoryExchange.Proofs.Xml.Content
import DirectoryExchange.Proofs.Xml.Tag

/-!
# Documents read as trees

However a document is written, what the reader gives is what a walk over its tree gives
(`exists_open?_tree`).
-/

namespace DirectoryExchange.Dsml

open Xml

@[simp] lemma items_behind (n : Nat) (f : Feed) :
    (f.behind n).items.map (·.outcome) = f.items.map (·.outcome) := by
  simp [Feed.behind, Function.comp_def]

/-- The outcomes of a tree are its items, numbered in order. -/
lemma forall₂_outcomesOf (count : Nat) (entries : List (Tag × Forest)) :
    List.Forall₂ (fun p o => IsItem p.2 p.1 o) (entries.zipIdx (count + 1))
      (outcomesOf count entries) := by
  rw [outcomesOf, List.forall₂_map_right_iff, List.forall₂_same]
  exact fun p _ => isItem_outcomeOf p.2 p.1

/-- Whatever its tags, character data, comments, instructions and literal sections look like, and in
whatever portions it is handed out, a document whose one element is the root element of the format
is read to its end: there is one item for each entry in each element of entries in the root, in
document order and numbered from 1, and it depends on the entry alone. -/
theorem exists_open?_tree (c : Content) {root : Tag × Forest}
    (hroot : (c.tree fun _ => []).elements = [root]) (hdsml : isElement root.1 "dsml")
    (portion : Option Nat) :
    ∃ f outcomes, open? { bytes := c.octets, portion } = .ok f ∧
      f.items.map (·.outcome) = outcomes.map (·.mapError ReadError.parse) ∧
      List.Forall₂ (fun p o => IsItem p.2 p.1 o) ((entriesIn root).zipIdx 1) outcomes := by
  obtain ⟨tree, placed, start, extent, helements, hflat, hdocument⟩ := c.exists_ofSource portion
  obtain ⟨f, hopen, houtcomes⟩ :=
    openNodes_of_flat hflat (helements.trans hroot) hdsml rfl extent
  refine ⟨f.behind start, outcomesOf 0 (entriesIn root), ?_, ?_, forall₂_outcomesOf 0 _⟩
  · rw [open?, hdocument]
    simp only [hopen, Except.map]
  · rw [items_behind, houtcomes]

/-- A document with two parts of entries and a comment between them gives items numbered through
both. -/
theorem exists_open?_tree_twoParts :
    let tag (name : String) (attributes : List WrittenAttribute)
        (h : NamePart name ∧ (attributes.map (·.key)).Nodup ∧ ∀ a ∈ attributes, a.Allowed) :
        WrittenTag := ⟨some "d", name, attributes, noGap, by decide, h.1, h.2.1, h.2.2⟩
    let nothing := escaped ""
    let last := Content.data nothing
    let attr := Content.element nothing
      (tag "attr" [escapedAttribute "name" "cn" (by decide) (by decide)] (by decide))
      (.empty nothing (tag "value" [] (by decide)) last) noGap last
    let entry := Content.element nothing
      (tag "entry" [escapedAttribute "dn" "cn=<" (by decide) (by decide)] (by decide)) attr noGap
      last
    let entries := Content.element nothing (tag "directory-entries" [] (by decide)) entry noGap last
    let inside := Content.element nothing (tag "directory-entries" [] (by decide))
      (.empty nothing (tag "entry" [] (by decide)) last) noGap
      (.passage nothing (.comment ⟨[], fun h => absurd h.length_le (by decide)⟩) entries)
    let c := Content.element nothing
      (tag "dsml" [escapedAttribute "xmlns:d" namespaceUri (by decide) (by decide)] (by decide))
      inside noGap last
    let e : Entry := ⟨"cn=<", [⟨"cn", [[]], by decide, by decide⟩], by decide, by decide⟩
    c.octets = Utf8.encode ("<d:dsml xmlns:d=\"http://www.dsml.org/DSML\">" ++
        "<d:directory-entries><d:entry/></d:directory-entries><!---->" ++
        "<d:directory-entries><d:entry dn=\"cn=&lt;\"><d:attr name=\"cn\"><d:value/></d:attr>" ++
        "</d:entry></d:directory-entries></d:dsml>") ∧
      ∃ f, open? { bytes := c.octets } = .ok f ∧
        f.items.map (·.outcome) =
          [.error (.parse (.recoverable (.invalidRecord .emptyDn) (entryLocation 1))),
            .ok (.add e)] := by
  intro tag nothing last attr entry entries inside c e
  obtain ⟨f, outcomes, hopen, houtcomes, hitems⟩ :=
    exists_open?_tree c rfl (by decide +kernel) none
  let meant (name : String) (attributes : List (String × String)) : Tag :=
    ⟨some (Utf8.encode namespaceUri), name, attributes⟩
  let inner : Forest := .element (meant "attr" [("name", "cn")])
    (.element (meant "value" []) .nil .nil) .nil
  have hentries : List.Forall₂ (fun p o => IsItem p.2 p.1 o)
      [((meant "entry" [], .nil), 1), ((meant "entry" [("dn", "cn=<")], inner), 2)] outcomes :=
    hitems
  obtain ⟨first, rest, hfirst, hrest, rfl⟩ := List.forall₂_cons_left_iff.1 hentries
  obtain ⟨second, rest, hsecond, hnone, rfl⟩ := List.forall₂_cons_left_iff.1 hrest
  obtain rfl := List.forall₂_nil_left_iff.1 hnone
  -- the first entry has no name, the second one is added with its empty value
  have hmerged : merged (pairsOf (saidIn inner)) = [("cn", [[]])] := by decide +kernel
  obtain rfl := hfirst.unique (.nameless rfl)
  have hadded : IsItem 2 (meant "entry" [("dn", "cn=<")], inner) (.ok (.add e)) :=
    .added rfl (by decide +kernel) hmerged.symm
  obtain rfl := hsecond.unique hadded
  exact ⟨by decide +kernel, f, hopen, houtcomes⟩

end DirectoryExchange.Dsml

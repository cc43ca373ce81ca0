import DirectoryExchange.Proofs.Model.Merge
import DirectoryExchange.Proofs.Model.ObjectClass
import DirectoryExchange.Text.Utf8

/-!
# Entries from pushes

However values are pushed into a draft, one by one, several at once or as texts, the entry is that
of all values merged by their names (`build_takeAll`).  Only the empty name and the empty
distinguished name can fail it: no other spelling is the same as the empty name
(`sameName_empty_iff`), so a draft never merges it with another.
-/

namespace DirectoryExchange

/-! ### The empty name -/

/-- No character folds to nothing. -/
lemma CaseFold.foldChar_ne_nil (c : Char) : foldChar c ≠ [] := by
  have hexpansions : ∀ p ∈ expansions, p.2 ≠ [] := by decide
  unfold foldChar
  split
  · exact List.cons_ne_nil _ _
  split
  · exact List.cons_ne_nil _ _
  split
  · next ns hlookup =>
    obtain ⟨before, behind, hsplit, -⟩ := List.lookup_eq_some_iff.1 hlookup
    have hmem : (c.toNat, ns) ∈ expansions := by simp [hsplit]
    simpa using hexpansions _ hmem
  · exact List.cons_ne_nil _ _

/-- Only the empty name is a spelling of it. -/
theorem sameName_empty_iff {name : String} : sameName name "" ↔ name = "" := by
  rw [sameName_iff]
  constructor
  · intro h
    have hnone : name.toList.flatMap CaseFold.foldChar = [] := h
    rw [List.flatMap_eq_nil_iff] at hnone
    rw [← String.toList_eq_nil_iff]
    exact List.eq_nil_iff_forall_not_mem.2 fun c hc => CaseFold.foldChar_ne_nil c (hnone c hc)
  · rintro rfl
    rfl

/-- The empty name comes up first wherever it comes up. -/
lemma empty_mem_firstNames_iff {names : List String} : "" ∈ firstNames names ↔ "" ∈ names := by
  constructor
  · exact mem_of_mem_firstNames
  · intro h
    obtain ⟨first, hfirst, hsame⟩ := exists_firstNames h
    rwa [← sameName_empty_iff.1 hsame]

/-! ### What a draft makes -/

namespace EntryDraft

variable {d : EntryDraft}

/-- A group without a name cannot be made an attribute. -/
lemma mapM_make_of_nameless {groups : List (String × List Bytes)}
    (hvalues : ∀ g ∈ groups, g.2 ≠ []) (hname : ∃ g ∈ groups, g.1 = "") :
    groups.mapM (fun g => Attribute.make g.1 g.2) = .error .emptyAttributeName := by
  induction groups with
  | nil => simp at hname
  | cons g rest ih =>
    obtain ⟨hg, hrest⟩ := List.forall_mem_cons.1 hvalues
    rw [List.mapM_cons]
    by_cases hempty : g.1 = ""
    · refine bind_eq_error_iff.2 (.inl ?_)
      simp only [Attribute.make, dif_pos hempty]
    · have hbehind : ∃ g ∈ rest, g.1 = "" := by simpa [hempty] using hname
      have hfirst : Attribute.make g.1 g.2 = .ok ⟨g.1, g.2, hempty, hg⟩ := by simp
      exact bind_eq_error_iff.2
        (.inr ⟨_, hfirst, bind_eq_error_iff.2 (.inl (ih hrest hbehind))⟩)

/-- A group without a name fails the draft, whatever its distinguished name is. -/
lemma build_of_nameless (hvalues : ∀ g ∈ d.groups, g.2 ≠ []) (hname : ∃ g ∈ d.groups, g.1 = "") :
    d.build = .error .emptyAttributeName :=
  bind_eq_error_iff.2 (.inl (mapM_make_of_nameless hvalues hname))

/-- A draft without a distinguished name fails for want of it if all groups have names. -/
lemma build_of_empty (hdn : d.dn = "") (hvalues : ∀ g ∈ d.groups, g.2 ≠ [])
    (hnames : ∀ g ∈ d.groups, g.1 ≠ "") : d.build = .error .emptyDn := by
  obtain ⟨attributes, hattributes⟩ := exists_attributes hnames hvalues
  refine bind_eq_error_iff.2 (.inr ⟨attributes, ?_, ?_⟩)
  · exact mapM_eq_ok_iff.2 (map_make_eq_iff.2 hattributes)
  · rw [Entry.make, dif_pos hdn]

end EntryDraft

/-! ### Pushes -/

/-- A call that gathers values. -/
inductive Push where
  /-- A value under a name. -/
  | value (name : String) (value : Bytes)
  /-- Values under a name, possibly none. -/
  | values (name : String) (values : List Bytes)
  /-- A text under a name. -/
  | text (name text : String)

/-- The values that the call gathers, each with its name. -/
def Push.pairs : Push → List (String × Bytes)
  | .value name octets => [(name, octets)]
  | .values name all => all.map fun octets => (name, octets)
  | .text name written => [(name, Utf8.encode written)]

namespace EntryDraft

/-- The draft behind the call. -/
def take (d : EntryDraft) : Push → EntryDraft
  | .value name value => d.push name value
  | .values name values => d.pushAll name values
  | .text name text => d.push name (Utf8.encode text)

/-- The draft behind all calls. -/
def takeAll (d : EntryDraft) (pushes : List Push) : EntryDraft := pushes.foldl take d

/-- A push of any kind pushes its pairs one by one. -/
lemma take_eq (d : EntryDraft) (p : Push) : d.take p = d.pushPairs p.pairs := by
  cases p with
  | value name value => rfl
  | values name values => exact (pushPairs_map d name values).symm
  | text name text => rfl

/-- Calls gather their values in order. -/
lemma takeAll_eq (d : EntryDraft) (pushes : List Push) :
    d.takeAll pushes = d.pushPairs (pushes.flatMap Push.pairs) := by
  induction pushes generalizing d with
  | nil => rfl
  | cons p pushes ih =>
    have hstep : d.takeAll (p :: pushes) = (d.take p).takeAll pushes := rfl
    rw [hstep, ih, take_eq, List.flatMap_cons, pushPairs_append]

end EntryDraft

/-- A group of what is merged has no name exactly if some pair has none. -/
lemma nameless_merged_iff {pairs : List (String × Bytes)} :
    (∃ g ∈ merged pairs, g.1 = "") ↔ ∃ p ∈ pairs, p.1 = "" := by
  have hnames : "" ∈ (merged pairs).map (·.1) ↔ "" ∈ pairs.map (·.1) := by
    rw [map_fst_merged, empty_mem_firstNames_iff]
  simpa only [List.mem_map] using hnames

/-! ### Entries of pushes -/

namespace Entry

/-- An attribute is found under the spellings of its name and under no others. -/
lemma attribute?_eq_some_iff {e : Entry} {a : Attribute} (ha : a ∈ e.attributes) {name : String} :
    e.attribute? name = some a ↔ sameName a.name name := by
  constructor
  · exact fun h => List.find?_some (p := fun a : Attribute => sameName a.name name) h
  · exact attribute?_eq_some ha

section Merged

variable {e : Entry} {pairs : List (String × Bytes)}
  (h : (e.attributes.map fun a => (a.name, a.values)) = merged pairs)

include h

/-- The names of an entry are those that come up first. -/
lemma names_of_merged : e.attributes.map (·.name) = firstNames (pairs.map (·.1)) := by
  rw [← map_fst_merged, ← h, List.map_map]
  rfl

/-- An attribute has the values of all pairs with its name. -/
lemma values_of_merged {a : Attribute} (ha : a ∈ e.attributes) :
    a.values = valuesOf a.name pairs := by
  have hmem : (a.name, a.values) ∈ merged pairs := by
    rw [← h]
    exact List.mem_map_of_mem ha
  obtain ⟨name, -, heq⟩ := List.mem_map.1 hmem
  obtain ⟨rfl, hvalues⟩ := Prod.mk.inj heq
  exact hvalues.symm

/-- Nothing is found under a name exactly if nothing was pushed under any spelling of it. -/
lemma attribute?_eq_none_iff_of_merged {name : String} :
    e.attribute? name = none ↔ ∀ p ∈ pairs, ¬ sameName p.1 name := by
  have hnames := names_of_merged h
  rw [Entry.attribute?, List.find?_eq_none]
  constructor
  · intro hnone p hp hsame
    obtain ⟨first, hfirst, hspelling⟩ := exists_firstNames (List.mem_map_of_mem (f := (·.1)) hp)
    rw [← hnames] at hfirst
    obtain ⟨a, ha, rfl⟩ := List.mem_map.1 hfirst
    exact hnone a ha (sameName_trans hspelling hsame)
  · intro hnone a ha hsame
    have hfirst : a.name ∈ firstNames (pairs.map (·.1)) := by
      rw [← hnames]
      exact List.mem_map_of_mem ha
    obtain ⟨p, hp, hpname⟩ := List.mem_map.1 (mem_of_mem_firstNames hfirst)
    rw [← hpname] at hsame
    exact hnone p hp hsame

end Merged

end Entry

/-- Whatever is pushed, an empty name among the values fails the draft first, then an empty
distinguished name, and nothing else does.  The attributes of the entry are the names in the order
in which they come up first, in their first spelling, and each has all values that were pushed under
any spelling of its name, in order.  Every spelling of its name finds the attribute, and no other
name finds any. -/
theorem build_takeAll (dn : String) (pushes : List Push) :
    let pairs := pushes.flatMap Push.pairs
    match (EntryDraft.takeAll { dn } pushes).build with
    | .error e =>
      e = .emptyAttributeName ∧ (∃ p ∈ pairs, p.1 = "") ∨
        e = .emptyDn ∧ (∀ p ∈ pairs, p.1 ≠ "") ∧ dn = ""
    | .ok entry =>
      (∀ p ∈ pairs, p.1 ≠ "") ∧ dn ≠ "" ∧ entry.dn = dn ∧
        entry.attributes.map (·.name) = firstNames (pairs.map (·.1)) ∧
        (∀ a ∈ entry.attributes, a.values = valuesOf a.name pairs) ∧
        (∀ a ∈ entry.attributes, ∀ name, entry.attribute? name = some a ↔ sameName a.name name) ∧
        ∀ name, entry.attribute? name = none ↔ ∀ p ∈ pairs, ¬ sameName p.1 name := by
  intro pairs
  rw [EntryDraft.takeAll_eq, EntryDraft.pushPairs_eq]
  have hvalues : ∀ g ∈ merged pairs, g.2 ≠ [] := fun g hg => values_ne_of_mem_merged hg
  -- the build looks at the names of the attributes first, and then at that of the entry
  by_cases hnameless : ∃ p ∈ pairs, p.1 = ""
  · rw [EntryDraft.build_of_nameless hvalues (nameless_merged_iff.2 hnameless)]
    exact .inl ⟨rfl, hnameless⟩
  have hnamed : ∀ p ∈ pairs, p.1 ≠ "" := fun p hp h => hnameless ⟨p, hp, h⟩
  have hgroups : ∀ g ∈ merged pairs, g.1 ≠ "" := fun g hg h =>
    hnameless (nameless_merged_iff.1 ⟨g, hg, h⟩)
  by_cases hdn : dn = ""
  · rw [EntryDraft.build_of_empty hdn hvalues hgroups]
    exact .inr ⟨rfl, hnamed, hdn⟩
  obtain ⟨entry, hbuild⟩ :=
    EntryDraft.exists_build (d := { dn, groups := merged pairs }) hdn hvalues hgroups
      (pairwise_names_merged pairs)
  obtain ⟨hname, hattributes⟩ := EntryDraft.build_eq_ok_iff.1 hbuild
  rw [hbuild]
  refine ⟨hnamed, hdn, hname, Entry.names_of_merged hattributes, ?_, ?_, ?_⟩
  · exact fun a ha => Entry.values_of_merged hattributes ha
  · exact fun a ha name => Entry.attribute?_eq_some_iff ha
  · exact fun name => Entry.attribute?_eq_none_iff_of_merged hattributes

end DirectoryExchange

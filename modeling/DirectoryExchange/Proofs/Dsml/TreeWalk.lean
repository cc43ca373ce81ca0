import DirectoryExchange.Proofs.Dsml.Tree
import DirectoryExchange.Proofs.Dsml.Walk

/-!
# The walk over a tree

The nodes of a tree, however its empty elements are written, lead the reader from element to
element.  Foreign elements leave no trace (`takes_foreign`), whatever they contain; each element of
the format is taken up in its place, from the values (`takesAll_values`) to the root
(`takesAll_root`).  So the nodes of a document give what its tree says (`openNodes_of_flat`).
-/

namespace DirectoryExchange.Dsml

open Xml

/-! ### From place to place -/

/-- Whatever has been told, the nodes lead from one place to the other outside foreign elements;
entries that have begun are counted with the place. -/
def Leads (s : Place × Nat) (nodes : List Node) (outcomes : List (Except ParseError ChangeRecord))
    (t : Place × Nat) : Prop :=
  ∀ events, ∃ events', Walks ⟨s.1, 0, s.2, events⟩ nodes outcomes ⟨t.1, 0, t.2, events'⟩

namespace Leads

variable {s t u : Place × Nat} {nodes more : List Node}
  {outcomes others : List (Except ParseError ChangeRecord)}

lemma nil (s : Place × Nat) : Leads s [] [] s := fun events => ⟨events, .nil _⟩

/-- What leads from one place to a second and on to a third leads to the third. -/
lemma append (hfirst : Leads s nodes outcomes t) (hsecond : Leads t more others u) :
    Leads s (nodes ++ more) (outcomes ++ others) u := by
  intro events
  obtain ⟨events', hwalk⟩ := hfirst events
  obtain ⟨events'', hwalk'⟩ := hsecond events'
  exact ⟨events'', hwalk.append hwalk'⟩

/-- A node behind which the walk goes on leads to where it goes on. -/
lemma proceed {node : Node}
    (h : ∀ events, ∃ events', State.step ⟨s.1, 0, s.2, events⟩ node =
      .proceed ⟨t.1, 0, t.2, events'⟩) : Leads s [node] [] t := by
  intro events
  obtain ⟨events', hstep⟩ := h events
  exact ⟨events', .single hstep⟩

/-- A node that ends an entry leads on with its outcome. -/
lemma give {node : Node} {outcome : Except ParseError ChangeRecord}
    (h : ∀ events, State.step ⟨s.1, 0, s.2, events⟩ node = .give outcome ⟨t.1, 0, t.2, []⟩) :
    Leads s [node] [outcome] t :=
  fun events => ⟨[], .give (h events) (.nil _)⟩

end Leads

/-- Whether character data is passed over there. -/
def Place.Deaf (p : Place) : Prop :=
  ∀ count events text, State.read ⟨p, 0, count, events⟩ text = ⟨p, 0, count, events⟩

/-- The element leads from one place to the other, in whatever way it is written. -/
def Takes (s : Place × Nat) (e : Tag × Forest) (outcomes : List (Except ParseError ChangeRecord))
    (t : Place × Nat) : Prop :=
  ∀ nodes, (Forest.element e.1 e.2 .nil).Flat nodes → Leads s nodes outcomes t

/-- The elements lead from one place to the other, and what stands between them is passed over. -/
inductive TakesAll : Place × Nat → List (Tag × Forest) →
    List (Except ParseError ChangeRecord) → Place × Nat → Prop
  | nil {s : Place × Nat} (hdeaf : s.1.Deaf) : TakesAll s [] [] s
  | cons {s t u : Place × Nat} {e : Tag × Forest} {elements : List (Tag × Forest)}
      {outcomes others : List (Except ParseError ChangeRecord)} (hdeaf : s.1.Deaf)
      (hfirst : Takes s e outcomes t) (hrest : TakesAll t elements others u) :
      TakesAll s (e :: elements) (outcomes ++ others) u

section

variable {s t : Place × Nat} {outcomes : List (Except ParseError ChangeRecord)}

/-- An element is taken up if it is as one tag and as two. -/
lemma Takes.of_tags {e : Tag × Forest}
    (hempty : e.2 = .nil → Leads s [.opened e.1 true] outcomes t)
    (helement : ∀ within, e.2.Flat within →
      Leads s (.opened e.1 false :: within ++ [.closed]) outcomes t) : Takes s e outcomes t := by
  obtain ⟨tag, inside⟩ := e
  intro nodes hnodes
  cases hnodes with
  | empty hrest =>
    cases hrest
    exact hempty rfl
  | element hinside hrest =>
    cases hrest
    exact helement _ hinside

/-- Where elements are taken up, character data between them is passed over. -/
lemma TakesAll.deaf {elements : List (Tag × Forest)} (h : TakesAll s elements outcomes t) :
    s.1.Deaf := by
  cases h with
  | nil hdeaf => exact hdeaf
  | cons hdeaf => exact hdeaf

/-- The nodes of siblings lead where the elements among them do. -/
theorem leads_of_flat {f : Forest} {nodes : List Node} (hf : f.Flat nodes)
    (h : TakesAll s f.elements outcomes t) : Leads s nodes outcomes t := by
  induction hf generalizing s outcomes with
  | nil =>
    cases h
    exact .nil _
  | @text value rest nodes _ ih =>
    have htext : Leads s [.text value] [] s := by
      refine .proceed fun events => ⟨events, ?_⟩
      rw [State.step]
      simp only [h.deaf s.2 events value]
    exact htext.append (ih h)
  | empty _ ih =>
    cases h with
    | cons _ hfirst hrest => exact (hfirst _ (.empty .nil)).append (ih hrest)
  | @element tag inside rest within nodes hinside _ _ ih =>
    cases h with
    | cons _ hfirst hrest =>
      have := (hfirst _ (.element hinside .nil)).append (ih hrest)
      simpa using this

end

/-! ### Foreign elements -/

/-- Within a foreign element nothing matters. -/
lemma walks_skipped {f : Forest} {nodes : List Node} (hf : f.Flat nodes) (p : Place)
    (depth count : Nat) (events : List LogEvent) :
    Walks ⟨p, depth + 1, count, events⟩ nodes [] ⟨p, depth + 1, count, events⟩ := by
  induction hf generalizing depth with
  | nil => exact .nil _
  | text _ ih => exact .proceed rfl (ih depth)
  | empty _ ih => exact .proceed rfl (ih depth)
  | element _ _ ihinside ih =>
    have hclose : Walks ⟨p, depth + 1 + 1, count, events⟩ [.closed] []
        ⟨p, depth + 1, count, events⟩ := .single rfl
    have hinner := ((ihinside (depth + 1)).append hclose).append (ih depth)
    rw [List.append_assoc] at hinner
    exact .proceed rfl hinner

/-- A foreign element leaves no trace. -/
lemma takes_foreign {p : Place} {count : Nat} {e : Tag × Forest}
    (h : ∀ events empty, State.enter ⟨p, 0, count, events⟩ e.1 empty =
      .proceed (State.skip ⟨p, 0, count, events⟩ empty)) : Takes (p, count) e [] (p, count) := by
  refine .of_tags (fun _ => .proceed fun events => ⟨events, h events true⟩) ?_
  intro within hwithin events
  have hclose : Walks ⟨p, 0 + 1, count, events⟩ [.closed] [] ⟨p, 0, count, events⟩ := .single rfl
  have hinner := (walks_skipped hwithin p 0 count events).append hclose
  exact ⟨events, .proceed (h events false) hinner⟩

/-! ### Values -/

section Values

variable (entry : OpenEntry) (count : Nat)

/-- Within a value all character data is gathered. -/
lemma walks_value {f : Forest} {nodes : List Node} (hf : f.Flat nodes) (vs : OpenValues)
    (v : OpenValue) (events : List LogEvent) :
    Walks ⟨.value entry vs v, 0, count, events⟩ nodes []
      ⟨.value entry vs { v with text := v.text ++ f.characters }, 0, count, events⟩ := by
  induction hf generalizing v with
  | nil =>
    rw [Forest.characters, List.append_nil]
    exact .nil _
  | text _ ih =>
    rw [Forest.characters, ← List.append_assoc]
    exact .proceed rfl (ih _)
  | empty _ ih => exact .proceed rfl (ih v)
  | @element _ inside _ _ _ _ _ ihinside ih =>
    have hclose : Walks ⟨.value entry vs
        ⟨v.encoded, v.text ++ inside.characters, v.depth + 1⟩, 0, count, events⟩ [.closed] []
        ⟨.value entry vs { v with text := v.text ++ inside.characters }, 0, count, events⟩ :=
      .single rfl
    have hinner := ((ihinside { v with depth := v.depth + 1 }).append hclose).append (ih _)
    rw [List.append_assoc] at hinner
    rw [Forest.characters, ← List.append_assoc]
    exact .proceed rfl hinner

/-- The entry with the faults of values. -/
def OpenEntry.blame (e : OpenEntry) (values : List (Option Bytes)) : OpenEntry :=
  ⟨e.draft, e.fault.or (faultOf values)⟩

@[simp] lemma OpenEntry.blame_nil (e : OpenEntry) : e.blame [] = e := by simp [blame, faultOf]

/-- Faults of values in two parts are noted part by part. -/
lemma OpenEntry.blame_append (e : OpenEntry) (values more : List (Option Bytes)) :
    e.blame (values ++ more) = (e.blame values).blame more := by
  rw [blame, blame, blame, faultOf_append, Option.or_assoc]

/-- The values with those of further elements. -/
def OpenValues.gain (vs : OpenValues) (values : List (Option Bytes)) : OpenValues :=
  { vs with values := vs.values ++ values.filterMap id }

@[simp] lemma OpenValues.gain_nil (vs : OpenValues) : vs.gain [] = vs := by simp [gain]

lemma OpenValues.gain_append (vs : OpenValues) (values more : List (Option Bytes)) :
    vs.gain (values ++ more) = (vs.gain values).gain more := by
  rw [gain, gain, gain, List.filterMap_append, List.append_assoc]

/-- A value that is over is gained, or its fault is noted. -/
lemma finish_eq (vs : OpenValues) (e : Tag × Forest) :
    OpenValue.finish ⟨e.1.attribute? "encoding" == some "base64", e.2.characters, 0⟩ entry vs =
      (entry.blame [valueOf e], vs.gain [valueOf e]) := by
  rw [OpenValue.finish, valueOf]
  by_cases hencoded : e.1.attribute? "encoding" = some "base64"
  · rw [if_pos hencoded, if_pos (beq_iff_eq.2 hencoded)]
    cases Base64.decode? (Utf8.decodeLossy e.2.characters) <;>
      simp [OpenEntry.blame, OpenValues.gain, faultOf]
  · rw [if_neg hencoded, if_neg (by simpa using hencoded)]
    simp [OpenEntry.blame, OpenValues.gain, faultOf]

/-- Character data between values is passed over. -/
lemma deaf_values (vs : OpenValues) : (Place.values entry vs).Deaf := fun _ _ _ => rfl

/-- The element of a value gives the value or a fault. -/
lemma takes_value (vs : OpenValues) {e : Tag × Forest} (he : isElement e.1 vs.element) :
    Takes (.values entry vs, count) e []
      (.values (entry.blame [valueOf e]) (vs.gain [valueOf e]), count) := by
  refine .of_tags ?_ ?_
  · intro hempty
    have hnone : valueOf e = some [] := by
      rw [valueOf, hempty]
      split <;> rfl
    refine .proceed fun events => ⟨events, ?_⟩
    simp [State.step, State.enter, he, hnone, OpenEntry.blame, OpenValues.gain, faultOf]
  · intro within hwithin
    have hopen : Leads (.values entry vs, count) [.opened e.1 false] []
        (.value entry vs ⟨e.1.attribute? "encoding" == some "base64", [], 0⟩, count) := by
      refine .proceed fun events => ⟨events, ?_⟩
      simp [State.step, State.enter, he]
    have hinner : Leads
        (.value entry vs ⟨e.1.attribute? "encoding" == some "base64", [], 0⟩, count) within []
        (.value entry vs ⟨e.1.attribute? "encoding" == some "base64", e.2.characters, 0⟩, count) :=
      fun events => ⟨events, walks_value entry count hwithin vs _ events⟩
    have hclose : Leads
        (.value entry vs ⟨e.1.attribute? "encoding" == some "base64", e.2.characters, 0⟩, count)
        [.closed] []
        (.values (entry.blame [valueOf e]) (vs.gain [valueOf e]), count) := by
      refine .proceed fun events => ⟨events, ?_⟩
      simp only [State.step, State.leave, finish_eq]
    exact (hopen.append hinner).append hclose

/-- The elements of values are taken up in order, and others are passed over. -/
theorem takesAll_values (vs : OpenValues) (elements : List (Tag × Forest)) :
    let values := (elementsNamed vs.element elements).map valueOf
    TakesAll (.values entry vs, count) elements []
      (.values (entry.blame values) (vs.gain values), count) := by
  induction elements generalizing entry vs with
  | nil =>
    have hnone : TakesAll (.values entry vs, count) [] []
        (.values (entry.blame []) (vs.gain []), count) := by
      rw [OpenEntry.blame_nil, OpenValues.gain_nil]
      exact .nil (deaf_values entry vs)
    exact hnone
  | cons e elements ih =>
    intro values
    by_cases he : isElement e.1 vs.element
    · have hvalues : values = [valueOf e] ++ (elementsNamed vs.element elements).map valueOf :=
        congrArg (List.map valueOf) (elementsNamed_cons_of_pos he elements)
      rw [hvalues, OpenEntry.blame_append, OpenValues.gain_append]
      exact .cons (deaf_values entry vs) (takes_value entry count vs he)
        (ih (entry.blame [valueOf e]) (vs.gain [valueOf e]))
    · have hvalues : values = (elementsNamed vs.element elements).map valueOf :=
        congrArg (List.map valueOf) (elementsNamed_cons_of_neg he elements)
      have hforeign : Takes (.values entry vs, count) e [] (.values entry vs, count) := by
        refine takes_foreign fun events empty => ?_
        rw [State.enter]
        simp only [he, if_false, Bool.false_eq_true]
      rw [hvalues]
      exact .cons (deaf_values entry vs) hforeign (ih entry vs)

end Values

/-! ### Entries -/

/-- Values under a name give pairs with that name. -/
lemma pairsOf_named {name : String} (hname : name ≠ "") (values : List (Option Bytes)) :
    pairsOf (values.map fun value => (some name, value)) =
      (values.filterMap id).map fun value => (name, value) := by
  induction values with
  | nil => rfl
  | cons value values ih => cases value <;> simpa [pairsOf, hname] using ih

/-- Values under no name give no pairs. -/
lemma pairsOf_nameless {name : Option String} (hname : name.getD "" = "")
    (values : List (Option Bytes)) : pairsOf (values.map fun value => (name, value)) = [] := by
  obtain rfl | rfl : name = none ∨ name = some "" := by
    cases name with
    | none => exact .inl rfl
    | some name => exact .inr (congrArg some hname)
  all_goals
    induction values with
    | nil => rfl
    | cons value values ih => cases value <;> exact ih

section Entries

variable (entry : OpenEntry) (count : Nat)

/-- An element of values that is over is heard with its name. -/
lemma take_gain (element : String) (name : Option String) (values : List (Option Bytes)) :
    ((entry.blame values).take (OpenValues.gain ⟨element, name, []⟩ values)).1 =
      entry.hear (values.map fun value => (name, value)) := by
  have hfault : (values.map fun value => (name, value)).map (·.2) = values := by
    rw [List.map_map]
    exact List.map_id _
  rw [OpenEntry.hear, hfault, OpenValues.gain, List.nil_append, OpenEntry.take]
  cases name with
  | none =>
    rw [pairsOf_nameless rfl]
    rfl
  | some name =>
    by_cases hname : name = ""
    · have hnone : (some name).getD "" = "" := hname
      rw [pairsOf_nameless hnone]
      simp only [hname, if_true]
      rfl
    · rw [pairsOf_named hname, EntryDraft.pushPairs_map]
      simp only [hname, if_false]
      rfl

/-- The end tag of an element of values leads back into the entry. -/
lemma leads_take (vs : OpenValues) :
    Leads (.values entry vs, count) [.closed] [] (.entry (entry.take vs).1, count) :=
  .proceed fun _ => ⟨_, rfl⟩

/-- An element of values is heard when it is over. -/
lemma leads_values (element : String) (name : Option String) {e : Tag × Forest} {within : List Node}
    (hwithin : e.2.Flat within) :
    Leads (.values entry ⟨element, name, []⟩, count) (within ++ [.closed]) []
      (.entry (entry.hear ((childrenNamed element e).map fun v => (name, valueOf v))), count) := by
  have hinner := leads_of_flat hwithin
    (takesAll_values entry count ⟨element, name, []⟩ e.2.elements)
  have := hinner.append (leads_take _ count _)
  rwa [take_gain, List.map_map] at this

lemma deaf_entry : (Place.entry entry).Deaf := fun _ _ _ => rfl

/-- An element of values says what it contains. -/
lemma takes_element {e : Tag × Forest} {element : String} {name : Option String}
    (hopen : ∀ events, State.enter ⟨.entry entry, 0, count, events⟩ e.1 false =
      .proceed ⟨.values entry ⟨element, name, []⟩, 0, count, events⟩) :
    Takes (.entry entry, count) e []
      (.entry (entry.hear ((childrenNamed element e).map fun v => (name, valueOf v))), count) := by
  refine .of_tags ?_ ?_
  · intro hempty
    have hnone : childrenNamed element e = [] := by
      rw [childrenNamed, hempty]
      rfl
    rw [hnone, List.map_nil, OpenEntry.hear_nil]
    exact .proceed fun events => ⟨events, rfl⟩
  · intro within hwithin
    have hfirst : Leads (.entry entry, count) [.opened e.1 false] []
        (.values entry ⟨element, name, []⟩, count) :=
      .proceed fun events => ⟨events, hopen events⟩
    exact hfirst.append (leads_values entry count element name hwithin)

/-- What an element says is heard. -/
lemma takes_said (e : Tag × Forest) :
    Takes (.entry entry, count) e [] (.entry (entry.hear (saidBy e)), count) := by
  by_cases hobject : isElement e.1 "objectclass"
  · rw [saidBy, if_pos hobject]
    refine takes_element entry count fun events => ?_
    simp [State.enter, hobject]
  · by_cases hattr : isElement e.1 "attr"
    · rw [saidBy, if_neg hobject, if_pos hattr]
      refine takes_element entry count fun events => ?_
      simp [State.enter, hobject, hattr]
    · rw [saidBy, if_neg hobject, if_neg hattr, OpenEntry.hear_nil]
      refine takes_foreign fun events empty => ?_
      cases empty <;> simp [State.enter, State.skip, hobject, hattr]

/-- The elements of an entry are heard in order. -/
lemma takesAll_entry (elements : List (Tag × Forest)) :
    TakesAll (.entry entry, count) elements []
      (.entry (entry.hear (elements.flatMap saidBy)), count) := by
  induction elements generalizing entry with
  | nil =>
    rw [List.flatMap_nil, OpenEntry.hear_nil]
    exact .nil (deaf_entry entry)
  | cons e elements ih =>
    rw [List.flatMap_cons, OpenEntry.hear_append]
    exact .cons (deaf_entry entry) (takes_said entry count e) (ih _)

/-- The element of an entry gives its outcome. -/
lemma takes_entry {e : Tag × Forest} (he : isElement e.1 "entry") :
    Takes (.entries, count) e [outcomeOf (count + 1) e] (.entries, count + 1) := by
  refine .of_tags ?_ ?_
  · intro hempty
    refine .give fun events => ?_
    have hnone : saidIn e.2 = [] := by
      rw [hempty]
      rfl
    simp only [State.step, State.enter, he, if_true, State.give, outcomeOf, hnone,
      OpenEntry.hear_nil]
  · intro within hwithin
    have hopen : Leads (.entries, count) [.opened e.1 false] []
        (.entry (.ofTag e.1), count + 1) := by
      refine .proceed fun events => ⟨events, ?_⟩
      simp [State.step, State.enter, he]
    have hinner := leads_of_flat hwithin (takesAll_entry (.ofTag e.1) (count + 1) e.2.elements)
    have hclose : Leads (.entry ((OpenEntry.ofTag e.1).hear (saidIn e.2)), count + 1) [.closed]
        [outcomeOf (count + 1) e] (.entries, count + 1) :=
      .give fun _ => rfl
    exact (hopen.append hinner).append hclose

end Entries

/-! ### Documents -/

/-- What entries give that are numbered on from `count`. -/
def outcomesOf (count : Nat) (entries : List (Tag × Forest)) :
    List (Except ParseError ChangeRecord) :=
  (entries.zipIdx (count + 1)).map fun p => outcomeOf p.2 p.1

/-- Entries in two parts are numbered through both. -/
lemma outcomesOf_append (count : Nat) (entries more : List (Tag × Forest)) :
    outcomesOf count (entries ++ more) =
      outcomesOf count entries ++ outcomesOf (count + entries.length) more := by
  rw [outcomesOf, List.zipIdx_append, List.map_append, Nat.add_right_comm]
  rfl

/-- The entries among the elements are read, numbered on. -/
lemma takesAll_entries (count : Nat) (elements : List (Tag × Forest)) :
    let entries := elementsNamed "entry" elements
    TakesAll (.entries, count) elements (outcomesOf count entries)
      (.entries, count + entries.length) := by
  induction elements generalizing count with
  | nil => exact .nil fun _ _ _ => rfl
  | cons e elements ih =>
    intro entries
    by_cases he : isElement e.1 "entry"
    · have hentries : entries = [e] ++ elementsNamed "entry" elements :=
        elementsNamed_cons_of_pos he elements
      rw [hentries, outcomesOf_append, List.length_append, ← Nat.add_assoc]
      exact .cons (fun _ _ _ => rfl) (takes_entry count he) (ih (count + 1))
    · have hentries : entries = elementsNamed "entry" elements :=
        elementsNamed_cons_of_neg he elements
      have hforeign : Takes (.entries, count) e [] (.entries, count) := by
        refine takes_foreign fun events empty => ?_
        simp [State.enter, he]
      rw [hentries]
      exact .cons (fun _ _ _ => rfl) hforeign (ih count)

/-- The element of the entries gives what they do. -/
lemma takes_directoryEntries (count : Nat) {e : Tag × Forest}
    (he : isElement e.1 "directory-entries") :
    Takes (.root, count) e (outcomesOf count (childrenNamed "entry" e))
      (.root, count + (childrenNamed "entry" e).length) := by
  refine .of_tags ?_ ?_
  · intro hempty
    have hnone : childrenNamed "entry" e = [] := by
      rw [childrenNamed, hempty]
      rfl
    rw [hnone]
    refine .proceed fun events => ⟨events, ?_⟩
    simp [State.step, State.enter, State.skip]
  · intro within hwithin
    have hopen : Leads (.root, count) [.opened e.1 false] [] (.entries, count) := by
      refine .proceed fun events => ⟨events, ?_⟩
      simp [State.step, State.enter, he]
    have hinner := leads_of_flat hwithin (takesAll_entries count e.2.elements)
    have hclose : Leads (.entries, count + (childrenNamed "entry" e).length) [.closed] []
        (.root, count + (childrenNamed "entry" e).length) := .proceed fun events => ⟨events, rfl⟩
    have := (hopen.append hinner).append hclose
    rwa [List.nil_append, List.append_nil] at this

/-- All elements in the root together give what the entries in them do. -/
theorem takesAll_root (count : Nat) (elements : List (Tag × Forest)) :
    let entries := (elementsNamed "directory-entries" elements).flatMap (childrenNamed "entry")
    TakesAll (.root, count) elements (outcomesOf count entries)
      (.root, count + entries.length) := by
  induction elements generalizing count with
  | nil => exact .nil fun _ _ _ => rfl
  | cons e elements ih =>
    intro entries
    by_cases he : isElement e.1 "directory-entries"
    · have hentries : entries = childrenNamed "entry" e ++
          (elementsNamed "directory-entries" elements).flatMap (childrenNamed "entry") :=
        congrArg (List.flatMap _) (elementsNamed_cons_of_pos he elements)
      rw [hentries, outcomesOf_append, List.length_append, ← Nat.add_assoc]
      exact .cons (fun _ _ _ => rfl) (takes_directoryEntries count he) (ih _)
    · have hentries : entries =
          (elementsNamed "directory-entries" elements).flatMap (childrenNamed "entry") :=
        congrArg (List.flatMap _) (elementsNamed_cons_of_neg he elements)
      have hforeign : Takes (.root, count) e [] (.root, count) := by
        refine takes_foreign fun events empty => ?_
        simp [State.enter, he]
      rw [hentries]
      exact .cons (fun _ _ _ => rfl) hforeign (ih count)

/-- The nodes behind the tag of a root element give what its entries do. -/
lemma outcomes_feedNodes_root (tag : Tag) {inside behind : Forest} {within after : List Node}
    (hinside : inside.Flat within) (hbehind : behind.Flat after) (hlast : behind.elements = [])
    {placed : List PlacedNode} (hplaced : placed.map (·.node) = within ++ .closed :: after)
    (extent : Nat) :
    (feedNodes true extent {} placed).items.map (·.outcome) =
      (outcomesOf 0 (entriesIn (tag, inside))).map (·.mapError ReadError.parse) := by
  have hroot := leads_of_flat hinside (takesAll_root 0 inside.elements)
  have hclose : ∀ count, Leads (.root, count) [.closed] [] (.trailing, count) :=
    fun count => .proceed fun events => ⟨events, rfl⟩
  have htrailing : ∀ count, Leads (.trailing, count) after [] (.trailing, count) := by
    intro count
    refine leads_of_flat hbehind ?_
    rw [hlast]
    exact .nil fun _ _ _ => rfl
  obtain ⟨events, hwalk⟩ := ((hroot.append (hclose _)).append (htrailing _)) []
  rw [List.append_nil, List.append_nil, List.append_assoc, List.singleton_append] at hwalk
  have houtcomes := outcomes_feedNodes hwalk hplaced true extent []
  simpa [feedNodes, endFeed, entriesIn, childrenNamed] using houtcomes

/-- The nodes of a document with one element, which is the root element of the format, give what
the entries in it do. -/
theorem openNodes_of_flat {document : Forest} {nodes : List Node} (h : document.Flat nodes)
    {root : Tag × Forest} (hroot : document.elements = [root]) (hdsml : isElement root.1 "dsml")
    {placed : List PlacedNode} (hplaced : placed.map (·.node) = nodes) (extent : Nat) :
    ∃ f, openNodes true extent placed = .ok f ∧
      f.items.map (·.outcome) =
        (outcomesOf 0 (entriesIn root)).map (·.mapError ReadError.parse) := by
  induction h generalizing placed with
  | nil => cases hroot
  | text _ ih =>
    obtain ⟨first, placed, rfl, hfirst, hplaced⟩ := List.map_eq_cons_iff.1 hplaced
    obtain ⟨f, hf, houtcomes⟩ := ih hroot hplaced
    refine ⟨f, ?_, houtcomes⟩
    rw [openNodes, hfirst]
    exact hf
  | empty _ _ =>
    obtain ⟨first, placed, rfl, hfirst, hplaced⟩ := List.map_eq_cons_iff.1 hplaced
    obtain ⟨rfl, -⟩ := List.cons.inj hroot
    refine ⟨⟨[], first.position, [], first.position⟩, ?_, rfl⟩
    rw [openNodes, hfirst]
    simp only [hdsml, if_true]
  | element hinside hrest _ _ =>
    obtain ⟨first, placed, rfl, hfirst, hplaced⟩ := List.map_eq_cons_iff.1 hplaced
    obtain ⟨rfl, hlast⟩ := List.cons.inj hroot
    refine ⟨{ feedNodes true extent {} placed with startPosition := first.position }, ?_,
      outcomes_feedNodes_root _ hinside hrest hlast hplaced extent⟩
    rw [openNodes, hfirst]
    simp only [hdsml, if_true, Bool.false_eq_true, if_false]

end DirectoryExchange.Dsml

import DirectoryExchange.Proofs.Dsml.Walk
import DirectoryExchange.Proofs.Model.Draft
import DirectoryExchange.Proofs.Xml.SelfClosing

/-!
# Elements that are empty

An element without content is one tag or two.  What has been told so far has no part in what a step
does (`step_alike`), and the one tag leads to where the two lead, in every place and in foreign
elements (`takesEmpty`); so the answers are the same up to the octets and the words of faults in the
markup, whatever is around the element (`gist_openNodes_emptied`).  The root element of the format
is the exception (`gist_openNodes_root`): as one tag it ends the document, as two it is followed by
a check that nothing but character data is left.  `open?_emptied` is the result on documents, and
`open?_emptied_stray` the shortest of those that are told apart.
-/

namespace DirectoryExchange

/-! ### What an answer says -/

/-- The kind without the words of a fault in the markup. -/
def ParseErrorKind.bare : ParseErrorKind → ParseErrorKind
  | .xml _ => .xml ""
  | kind => kind

/-- The location without the number of octets. -/
def Location.bare : Location → Location
  | .offset _ => .offset 0
  | location => location

/-- The error without what depends on how the markup is written. -/
def ReadError.bare : ReadError → ReadError
  | .parse e => .parse ⟨e.kind.bare, e.mayContinue, e.location.bare⟩
  | .stream e => .stream e

/-- The answers without what depends on how the markup is written. -/
def Feed.gist (f : Feed) : List (Except ReadError ChangeRecord) :=
  f.items.map fun item => item.outcome.mapError ReadError.bare

namespace Dsml

open Xml

/-- What opening a document comes to: why it fails, or the answers. -/
def gist (opened : Except ReadError Feed) :
    Except ReadError (List (Except ReadError ChangeRecord)) :=
  match opened with
  | .ok f => .ok f.gist
  | .error e => .error e.bare

/-- The answer of a document that cannot be read further. -/
def brokenOff : Except ReadError ChangeRecord := .error (.parse (.fatal (.xml "") (.offset 0)))

/-! ### What has been told does not matter -/

/-- Whether the states differ in no more than what has been told. -/
def State.Alike (s t : State) : Prop := ∃ events, t = { s with events }

/-- Whether the steps lead to states that differ in no more than what has been told. -/
inductive Step.Alike : Step → Step → Prop
  | proceed {s t : State} (h : s.Alike t) : Step.Alike (.proceed s) (.proceed t)
  | give {outcome : Except ParseError ChangeRecord} {s t : State} (h : s.Alike t) :
      Step.Alike (.give outcome s) (.give outcome t)
  | stray : Step.Alike .stray .stray

section

variable {s : State} (events : List LogEvent)

/-- What has been told has no part in what a tag does. -/
lemma enter_alike (tag : Tag) (empty : Bool) :
    (s.enter tag empty).Alike (State.enter { s with events } tag empty) := by
  obtain ⟨place, skipping, count, told⟩ := s
  have hskip : ∀ place, Step.Alike (.proceed (State.skip ⟨place, skipping, count, told⟩ empty))
      (.proceed (State.skip ⟨place, skipping, count, events⟩ empty)) := fun place => by
    cases empty <;> exact .proceed ⟨events, rfl⟩
  cases place with
  | root =>
    simp only [State.enter]
    split
    · exact .proceed ⟨events, rfl⟩
    · exact hskip _
  | entries =>
    simp only [State.enter]
    split
    · split
      · exact .give ⟨[], rfl⟩
      · exact .proceed ⟨events, rfl⟩
    · exact hskip _
  | entry e =>
    simp only [State.enter]
    split
    · exact .proceed ⟨events, rfl⟩
    split
    · exact .proceed ⟨events, rfl⟩
    split
    · exact .proceed ⟨events, rfl⟩
    · exact hskip _
  | values e vs =>
    simp only [State.enter]
    split
    · split <;> exact .proceed ⟨events, rfl⟩
    · exact hskip _
  | value e vs v =>
    simp only [State.enter]
    split <;> exact .proceed ⟨events, rfl⟩
  | trailing => exact .stray

/-- What has been told has no part in what an end tag does. -/
lemma leave_alike : s.leave.Alike (State.leave { s with events }) := by
  obtain ⟨place, skipping, count, told⟩ := s
  cases place with
  | root => exact .proceed ⟨events, rfl⟩
  | entries => exact .proceed ⟨events, rfl⟩
  | entry e => exact .give ⟨[], rfl⟩
  | values e vs => exact .proceed ⟨events ++ (e.take vs).2, rfl⟩
  | value e vs v =>
    simp only [State.leave]
    split <;> exact .proceed ⟨events, rfl⟩
  | trailing => exact .stray

/-- What has been told does not matter to a step. -/
lemma step_alike (node : Node) : (s.step node).Alike (State.step { s with events } node) := by
  obtain ⟨place, skipping, count, told⟩ := s
  cases skipping with
  | zero =>
    cases node with
    | opened tag empty => exact enter_alike events tag empty
    | closed => exact leave_alike events
    | text value => cases place <;> exact .proceed ⟨events, rfl⟩
  | succ depth =>
    cases node with
    | opened tag empty => cases empty <;> exact .proceed ⟨events, rfl⟩
    | closed => exact .proceed ⟨events, rfl⟩
    | text value => exact .proceed ⟨events, rfl⟩

end

/-! ### One node or two -/

/-- Whether an empty element is taken up like its start tag and its end tag together, or no tag may
stand there at all. -/
def State.TakesEmpty (s : State) (tag : Tag) : Prop :=
  (s.step (.opened tag true) = .stray ∧ s.step (.opened tag false) = .stray) ∨
    ∃ t, s.step (.opened tag false) = .proceed t ∧
      (s.step (.opened tag true)).Alike (t.step .closed)

section

variable {place : Place} {count : Nat} {told : List LogEvent} {tag : Tag}

/-- A foreign element without content is passed over, as one tag or as two. -/
lemma takesEmpty_foreign (h : ∀ empty, State.enter ⟨place, 0, count, told⟩ tag empty =
    .proceed (State.skip ⟨place, 0, count, told⟩ empty)) :
    State.TakesEmpty ⟨place, 0, count, told⟩ tag := by
  refine .inr ⟨⟨place, 1, count, told⟩, h false, ?_⟩
  have hone : State.step ⟨place, 0, count, told⟩ (.opened tag true) =
      .proceed ⟨place, 0, count, told⟩ := h true
  rw [hone]
  exact .proceed ⟨told, rfl⟩

/-- In the root element one tag leads to where two lead. -/
lemma takesEmpty_root : State.TakesEmpty ⟨.root, 0, count, told⟩ tag := by
  cases helement : isElement tag "directory-entries" with
  | false => exact takesEmpty_foreign fun empty => by simp [State.enter, helement]
  | true =>
    refine .inr ⟨⟨.entries, 0, count, told⟩, by simp [State.step, State.enter, helement], ?_⟩
    simp only [State.step, State.enter, helement]
    exact .proceed ⟨told, rfl⟩

/-- Among the entries either way gives an entry without attributes. -/
lemma takesEmpty_entries : State.TakesEmpty ⟨.entries, 0, count, told⟩ tag := by
  cases helement : isElement tag "entry" with
  | false => exact takesEmpty_foreign fun empty => by simp [State.enter, helement]
  | true =>
    refine .inr ⟨⟨.entry (.ofTag tag), 0, count + 1, told⟩,
      by simp [State.step, State.enter, helement], ?_⟩
    simp only [State.step, State.enter, helement]
    exact .give ⟨[], rfl⟩

/-- No values are no change. -/
lemma take_none (e : OpenEntry) (element : String) (name : Option String) :
    (e.take ⟨element, name, []⟩).1 = e := by
  rw [OpenEntry.take]
  split
  · split
    · rfl
    · rfl
  · rfl

/-- In an entry an element without values adds none, either way. -/
lemma takesEmpty_entry (e : OpenEntry) : State.TakesEmpty ⟨.entry e, 0, count, told⟩ tag := by
  have hvalues : ∀ element name, State.enter ⟨.entry e, 0, count, told⟩ tag false =
      .proceed ⟨.values e ⟨element, name, []⟩, 0, count, told⟩ →
      State.TakesEmpty ⟨.entry e, 0, count, told⟩ tag := by
    intro element name henter
    refine .inr ⟨_, henter, ?_⟩
    have hleave : State.step ⟨.values e ⟨element, name, []⟩, 0, count, told⟩ .closed =
        .proceed ⟨.entry (e.take ⟨element, name, []⟩).1, 0, count,
          told ++ (e.take ⟨element, name, []⟩).2⟩ := rfl
    rw [hleave, take_none]
    exact .proceed ⟨_, rfl⟩
  cases hclass : isElement tag "objectclass" with
  | true => exact hvalues _ _ (by simp only [State.enter, hclass]; rfl)
  | false =>
    cases hattr : isElement tag "attr" with
    | true => exact hvalues _ _ (by simp only [State.enter, hclass, hattr]; rfl)
    | false =>
      refine takesEmpty_foreign fun empty => ?_
      cases empty <;> simp [State.enter, State.skip, hclass, hattr]

/-- A value without character data has no octets, in base64 as well. -/
lemma finish_empty (e : OpenEntry) (vs : OpenValues) (encoded : Bool) :
    OpenValue.finish { encoded } e vs = (e, { vs with values := vs.values ++ [[]] }) := by
  have hnone : Base64.decode? (Utf8.decodeLossy []) = some [] := by decide
  cases encoded with
  | true => simp only [OpenValue.finish, hnone, if_true]
  | false => rfl

/-- Among values either way gives an empty value. -/
lemma takesEmpty_values (e : OpenEntry) (vs : OpenValues) :
    State.TakesEmpty ⟨.values e vs, 0, count, told⟩ tag := by
  cases helement : isElement tag vs.element with
  | false => exact takesEmpty_foreign fun empty => by simp [State.enter, helement]
  | true =>
    have hfinish : ∀ encoded, State.step ⟨.value e vs { encoded }, 0, count, told⟩ .closed =
        .proceed ⟨.values e { vs with values := vs.values ++ [[]] }, 0, count, told⟩ := by
      intro encoded
      simp only [State.step, State.leave, finish_empty]
    refine .inr ⟨⟨.value e vs { encoded := tag.attribute? "encoding" == some "base64" }, 0, count,
      told⟩, by simp [State.step, State.enter, helement], ?_⟩
    rw [hfinish]
    simp only [State.step, State.enter, helement]
    exact .proceed ⟨told, rfl⟩

/-- In a value an element without content adds no character data, either way. -/
lemma takesEmpty_value (e : OpenEntry) (vs : OpenValues) (v : OpenValue) :
    State.TakesEmpty ⟨.value e vs v, 0, count, told⟩ tag :=
  .inr ⟨_, rfl, .proceed ⟨told, rfl⟩⟩

end

/-- An empty element is taken up like its start tag and its end tag together, wherever an element
may stand. -/
theorem takesEmpty (s : State) (tag : Tag) : s.TakesEmpty tag := by
  obtain ⟨place, skipping, count, told⟩ := s
  cases skipping with
  | succ depth => exact .inr ⟨_, rfl, .proceed ⟨told, rfl⟩⟩
  | zero =>
    cases place with
    | root => exact takesEmpty_root
    | entries => exact takesEmpty_entries
    | entry e => exact takesEmpty_entry e
    | values e vs => exact takesEmpty_values e vs
    | value e vs v => exact takesEmpty_value e vs v
    | trailing => exact .inl ⟨rfl, rfl⟩

/-! ### What the nodes come to -/

/-- What a step comes to, and then what is behind it. -/
def Step.gist (rest : State → List (Except ReadError ChangeRecord)) :
    Step → List (Except ReadError ChangeRecord)
  | .proceed s => rest s
  | .give outcome s => (outcome.mapError ReadError.parse).mapError ReadError.bare :: rest s
  | .stray => [brokenOff]

/-- Steps that are alike come to the same if what follows does. -/
lemma Step.Alike.gist_eq {a b : Step} (h : a.Alike b)
    {rest rest' : State → List (Except ReadError ChangeRecord)}
    (hrest : ∀ s t, s.Alike t → rest s = rest' t) : a.gist rest = b.gist rest' := by
  cases h with
  | proceed h => exact hrest _ _ h
  | give h => exact congrArg _ (hrest _ _ h)
  | stray => rfl

section

variable {whole : Bool} {extent extent' : Nat} {s t : State} {x : PlacedNode}
  {xs ys : List PlacedNode}

/-- What nodes come to is what the first one does and what the others come to behind it. -/
lemma gist_feedNodes_cons : (feedNodes whole extent s (x :: xs)).gist =
    (s.step x.node).gist fun t => (feedNodes whole extent t xs).gist := by
  rw [feedNodes]
  cases s.step x.node <;> rfl

/-- What has been told, and where nodes end, does not matter to what they come to. -/
lemma gist_feedNodes_alike (h : s.Alike t) (hnodes : xs.map (·.node) = ys.map (·.node)) :
    (feedNodes whole extent s xs).gist = (feedNodes whole extent' t ys).gist := by
  induction xs generalizing s t ys with
  | nil =>
    obtain rfl := List.map_eq_nil_iff.1 hnodes.symm
    obtain ⟨events, rfl⟩ := h
    rw [feedNodes, feedNodes, endFeed, endFeed]
    split
    · rfl
    · split <;> rfl
  | cons x xs ih =>
    obtain ⟨y, ys, rfl, hy, hys⟩ := List.map_eq_cons_iff.1 hnodes.symm
    obtain ⟨events, rfl⟩ := h
    rw [gist_feedNodes_cons, gist_feedNodes_cons, hy]
    exact (step_alike events x.node).gist_eq fun s t h => ih h hys.symm

/-- What nodes come to does not depend on the way in which an empty element is written. -/
lemma gist_feedNodes_emptied {pre post : List Node} {tag : Tag}
    (hxs : xs.map (·.node) = pre ++ .opened tag true :: post)
    (hys : ys.map (·.node) = pre ++ .opened tag false :: .closed :: post) :
    (feedNodes whole extent s xs).gist = (feedNodes whole extent' s ys).gist := by
  induction pre generalizing s xs ys with
  | nil =>
    obtain ⟨x, xs, rfl, hx, hxs⟩ := List.map_eq_cons_iff.1 hxs
    obtain ⟨y, ys, rfl, hy, hys⟩ := List.map_eq_cons_iff.1 hys
    obtain ⟨z, ys, rfl, hz, hys⟩ := List.map_eq_cons_iff.1 hys
    rw [gist_feedNodes_cons, gist_feedNodes_cons, hx, hy]
    rcases takesEmpty s tag with ⟨hone, htwo⟩ | ⟨t, htwo, halike⟩
    · rw [hone, htwo]
      rfl
    · rw [htwo, Step.gist, gist_feedNodes_cons, hz]
      exact halike.gist_eq fun s t h => gist_feedNodes_alike h (hxs.trans hys.symm)
  | cons node pre ih =>
    obtain ⟨x, xs, rfl, hx, hxs⟩ := List.map_eq_cons_iff.1 hxs
    obtain ⟨y, ys, rfl, hy, hys⟩ := List.map_eq_cons_iff.1 hys
    rw [gist_feedNodes_cons, gist_feedNodes_cons, hx, hy]
    congr 1
    funext t
    exact ih hxs hys

/-- Behind the root element there may only be character data. -/
lemma gist_feedNodes_trailing (hplace : s.place = .trailing) (hskip : s.skipping = 0) :
    (feedNodes whole extent s xs).gist =
      if whole && (xs.map (·.node)).all Node.isText then [] else [brokenOff] := by
  induction xs generalizing s with
  | nil =>
    rw [feedNodes, endFeed, if_pos hplace]
    cases whole <;> rfl
  | cons x xs ih =>
    rw [gist_feedNodes_cons, List.map_cons, List.all_cons]
    cases x.node with
    | text value =>
      have hstep : s.step (.text value) = .proceed s := by
        simp only [State.step, hskip, State.read, hplace]
      rw [hstep]
      exact ih hplace hskip
    | opened tag empty =>
      have hstep : s.step (.opened tag empty) = .stray := by
        simp only [State.step, hskip, State.enter, hplace]
      rw [hstep, isText_opened, Bool.false_and, Bool.and_false]
      rfl
    | closed =>
      have hstep : s.step .closed = .stray := by
        simp only [State.step, hskip, State.leave, hplace]
      rw [hstep, isText_closed, Bool.false_and, Bool.and_false]
      rfl

end

/-! ### What documents come to -/

section

variable {whole : Bool} {extent extent' : Nat} {x : PlacedNode} {xs ys : List PlacedNode}
  {tag : Tag}

/-- In front of the root element nothing matters. -/
lemma openNodes_cons_of_not_opened (h : ∀ tag empty, x.node ≠ .opened tag empty) :
    openNodes whole extent (x :: xs) = openNodes whole extent xs := by
  rw [openNodes]
  split
  · next tag empty hnode => exact absurd hnode (h tag empty)
  · rfl

/-- What the root element comes to. -/
lemma gist_openNodes_cons_opened {empty : Bool} (h : x.node = .opened tag empty) :
    gist (openNodes whole extent (x :: xs)) =
      if isElement tag "dsml" then .ok (if empty then [] else (feedNodes whole extent {} xs).gist)
      else if tag.uri == some (Utf8.encode namespaceUri) then .error (notDsml tag.name)
      else .error (notDsml s!"{tag.name} outside the DSML namespace") := by
  rw [openNodes, h]
  simp only
  split
  · cases empty <;> rfl
  · split <;> rfl

/-- What opening a document comes to does not depend on where its nodes end. -/
lemma gist_openNodes_congr (hnodes : xs.map (·.node) = ys.map (·.node)) :
    gist (openNodes whole extent xs) = gist (openNodes whole extent' ys) := by
  induction xs generalizing ys with
  | nil =>
    obtain rfl := List.map_eq_nil_iff.1 hnodes.symm
    rw [openNodes, openNodes]
    cases whole <;> rfl
  | cons x xs ih =>
    obtain ⟨y, ys, rfl, hy, hys⟩ := List.map_eq_cons_iff.1 hnodes.symm
    by_cases hopened : ∃ tag empty, x.node = .opened tag empty
    · obtain ⟨tag, empty, hx⟩ := hopened
      rw [gist_openNodes_cons_opened hx, gist_openNodes_cons_opened (hy.trans hx),
        gist_feedNodes_alike ⟨[], rfl⟩ hys.symm]
    · push Not at hopened
      rw [openNodes_cons_of_not_opened hopened, openNodes_cons_of_not_opened (by rwa [hy])]
      exact ih hys.symm

/-- What opening a document comes to does not depend on the way in which an empty element is
written, unless it is the root element of the format. -/
lemma gist_openNodes_emptied {pre post : List Node}
    (hxs : xs.map (·.node) = pre ++ .opened tag true :: post)
    (hys : ys.map (·.node) = pre ++ .opened tag false :: .closed :: post)
    (hroot : (∀ tag empty, .opened tag empty ∉ pre) → isElement tag "dsml" = false) :
    gist (openNodes whole extent xs) = gist (openNodes whole extent' ys) := by
  induction pre generalizing xs ys with
  | nil =>
    obtain ⟨x, xs, rfl, hx, hxs⟩ := List.map_eq_cons_iff.1 hxs
    obtain ⟨y, ys, rfl, hy, hys⟩ := List.map_eq_cons_iff.1 hys
    have helement : isElement tag "dsml" = false := hroot fun _ _ => List.not_mem_nil
    rw [gist_openNodes_cons_opened hx, gist_openNodes_cons_opened hy, helement]
    rfl
  | cons node pre ih =>
    obtain ⟨x, xs, rfl, hx, hbehindX⟩ := List.map_eq_cons_iff.1 hxs
    obtain ⟨y, ys, rfl, hy, hbehindY⟩ := List.map_eq_cons_iff.1 hys
    by_cases hopened : ∃ tag empty, node = .opened tag empty
    · obtain ⟨root, empty, rfl⟩ := hopened
      rw [gist_openNodes_cons_opened hx, gist_openNodes_cons_opened hy,
        gist_feedNodes_emptied hbehindX hbehindY]
    · push Not at hopened
      rw [openNodes_cons_of_not_opened (by rwa [hx]), openNodes_cons_of_not_opened (by rwa [hy])]
      refine ih hbehindX hbehindY fun hpre => hroot fun tag empty hmem => ?_
      rcases List.mem_cons.1 hmem with rfl | hmem
      · exact hopened tag empty rfl
      · exact hpre tag empty hmem

/-- An empty root element is the end of a document in one way to write it; in the other way nothing
but character data may follow it. -/
lemma gist_openNodes_root {pre post : List Node} (hpre : pre.all Node.isText = true)
    (hroot : isElement tag "dsml" = true)
    (hxs : xs.map (·.node) = pre ++ .opened tag true :: post)
    (hys : ys.map (·.node) = pre ++ .opened tag false :: .closed :: post) :
    gist (openNodes whole extent xs) = .ok [] ∧
      gist (openNodes whole extent' ys) =
        .ok (if whole && post.all Node.isText then [] else [brokenOff]) := by
  induction pre generalizing xs ys with
  | nil =>
    obtain ⟨x, xs, rfl, hx, -⟩ := List.map_eq_cons_iff.1 hxs
    obtain ⟨y, ys, rfl, hy, hys⟩ := List.map_eq_cons_iff.1 hys
    obtain ⟨z, ys, rfl, hz, rfl⟩ := List.map_eq_cons_iff.1 hys
    have hclosed : State.step {} .closed = .proceed { place := .trailing } := rfl
    rw [gist_openNodes_cons_opened hx, gist_openNodes_cons_opened hy, hroot, gist_feedNodes_cons,
      hz, hclosed]
    exact ⟨rfl, congrArg Except.ok (gist_feedNodes_trailing rfl rfl)⟩
  | cons node pre ih =>
    obtain ⟨x, xs, rfl, hx, hbehindX⟩ := List.map_eq_cons_iff.1 hxs
    obtain ⟨y, ys, rfl, hy, hbehindY⟩ := List.map_eq_cons_iff.1 hys
    rw [List.all_cons, Bool.and_eq_true] at hpre
    have hopened : ∀ tag empty, node ≠ .opened tag empty := by
      rintro tag empty rfl
      exact absurd hpre.1 Bool.false_ne_true
    rw [openNodes_cons_of_not_opened (by rwa [hx]), openNodes_cons_of_not_opened (by rwa [hy])]
    exact ih hpre.2 hbehindX hbehindY

end

/-- What a document comes to is what its nodes come to. -/
lemma gist_open? (source : Source) : gist (open? source) =
    gist (openNodes (Document.ofSource source).whole (Document.ofSource source).extent
      (Document.ofSource source).nodes) := by
  rw [open?]
  cases openNodes (Document.ofSource source).whole (Document.ofSource source).extent
      (Document.ofSource source).nodes with
  | error e => rfl
  | ok f =>
    have hbehind : (f.behind (Document.ofSource source).start).gist = f.gist := by
      simp only [Feed.gist, Feed.behind, List.map_map, Function.comp_def]
    exact congrArg Except.ok hbehind

/-- Whether there is nothing in the document but well-formed character data. -/
def TextOnly (document : Bytes) : Prop :=
  (lex document true).2 = true ∧ (nodesOf [] (piecesOf document)).2 = true ∧
    (nodesOf [] (piecesOf document)).1.all Node.isText = true

instance (document : Bytes) : Decidable (TextOnly document) := by
  unfold TextOnly
  infer_instance

/-- Whether a tag with that content is the root element of the format, behind that much of a
document. -/
structure RootTag (before content : Bytes) : Prop where
  /-- What is in front of it is well-formed. -/
  wellFormed : (nodesOf [] (piecesOf before)).2 = true
  /-- There is no element in front of it. -/
  first : (nodesOf [] (piecesOf before)).1.all Node.isText = true
  /-- It has the name and the namespace. -/
  element : ∃ tag element, readTag? [] content = some (tag, element) ∧ isElement tag "dsml" = true

/-- A document with an empty root element in one tag gives nothing, and has to end there if the
element is written as two tags. -/
lemma gist_rootTag {whole : Bool} {extent extent' : Nat} {xs ys : List PlacedNode}
    {front : List Node} {tag : Tag} {behind : Bytes} (hfront : front.all Node.isText = true)
    (hroot : isElement tag "dsml" = true)
    (hxs : xs.map (·.node) = front ++ .opened tag true :: (nodesOf [] (piecesOf behind)).1)
    (hys : ys.map (·.node) = front ++ .opened tag false :: .closed ::
      (nodesOf [] (piecesOf behind)).1)
    (hwhole : whole = ((nodesOf [] (piecesOf behind)).2 && (lex behind true).2)) :
    gist (openNodes whole extent xs) = .ok [] ∧
      gist (openNodes whole extent' ys) =
        .ok (if TextOnly behind then [] else [brokenOff]) := by
  have hdata : (whole && (nodesOf [] (piecesOf behind)).1.all Node.isText) = true ↔
      TextOnly behind := by
    rw [hwhole, Bool.and_eq_true, Bool.and_eq_true, TextOnly]
    tauto
  obtain ⟨hone, htwo⟩ := gist_openNodes_root hfront hroot hxs hys
  refine ⟨hone, htwo.trans (congrArg Except.ok ?_)⟩
  simp only [hdata]

section

variable {before content sofar : Bytes} (portion : Option Nat)

/-- What follows a root element that is empty is not looked at if it is one tag, and is a fault if
it is two. -/
lemma gist_open?_of_rootTag (hcontent : Emptiable content)
    (hplace : (lexFrom 0 (.text []) (before.drop (markLength { bytes := before, portion }))).2 =
      .text sofar)
    (hroot : RootTag (before.drop (markLength { bytes := before, portion })) content)
    (behind : Bytes) :
    gist (open? { bytes := before ++ selfClosed content ++ behind, portion }) = .ok [] ∧
      gist (open? { bytes := before ++ startAndEnd content ++ behind, portion }) =
        .ok (if TextOnly behind then [] else [brokenOff]) := by
  obtain ⟨hwell, hfirst, tag, element, hread, helement⟩ := hroot
  obtain ⟨elements, htexts, hcases⟩ := ofSource_emptied portion hcontent hplace behind
  obtain rfl := htexts hfirst
  rw [gist_open?, gist_open?]
  rcases hcases with ⟨hunread, -⟩ |
    ⟨-, tag', element', hread', hnodesOne, hnodesTwo, hwhole, hsame⟩
  · rw [hunread hwell] at hread
    cases hread
  · obtain ⟨rfl, rfl⟩ := Prod.mk.inj (Option.some.inj (hread.symm.trans hread'))
    rw [hsame]
    exact gist_rootTag hfirst helement hnodesOne hnodesTwo hwhole

/-- If the element is not the root element of the format, one tag comes to the same as two. -/
lemma gist_open?_of_not_rootTag (hcontent : Emptiable content)
    (hplace : (lexFrom 0 (.text []) (before.drop (markLength { bytes := before, portion }))).2 =
      .text sofar)
    (hroot : ¬ RootTag (before.drop (markLength { bytes := before, portion })) content)
    (behind : Bytes) :
    gist (open? { bytes := before ++ selfClosed content ++ behind, portion }) =
      gist (open? { bytes := before ++ startAndEnd content ++ behind, portion }) := by
  obtain ⟨elements, htexts, hcases⟩ := ofSource_emptied portion hcontent hplace behind
  rw [gist_open?, gist_open?]
  rcases hcases with ⟨-, hnodes, hwholeOne, hwholeTwo⟩ |
    ⟨hwell, tag, element, hread, hnodesOne, hnodesTwo, -, hsame⟩
  · rw [hwholeOne, hwholeTwo]
    exact gist_openNodes_congr hnodes
  · rw [hsame]
    refine gist_openNodes_emptied hnodesOne hnodesTwo fun hopened => ?_
    have hfirst := all_isText_of_not_opened hopened
    by_contra helement
    rw [htexts hfirst] at hread
    exact hroot ⟨hwell, hfirst, tag, element, hread, eq_true_of_ne_false helement⟩

/-- An element that is empty may be written in both ways, with the same answers up to what depends
on how the markup is written, exactly if it is not the root element of the format, or nothing but
character data follows it.  What follows a root element is not looked at if it is one tag, and is a
fault if it is two. -/
theorem open?_emptied (hcontent : Emptiable content)
    (hplace : (lexFrom 0 (.text []) (before.drop (markLength { bytes := before, portion }))).2 =
      .text sofar) (behind : Bytes) :
    let one := gist (open? { bytes := before ++ selfClosed content ++ behind, portion })
    let two := gist (open? { bytes := before ++ startAndEnd content ++ behind, portion })
    let root := RootTag (before.drop (markLength { bytes := before, portion })) content
    (one = two ↔ (root → TextOnly behind)) ∧
      (root → one = .ok [] ∧ two = .ok (if TextOnly behind then [] else [brokenOff])) := by
  intro one two root
  have hempty : root → one = .ok [] ∧ two = .ok (if TextOnly behind then [] else [brokenOff]) :=
    fun hroot => gist_open?_of_rootTag portion hcontent hplace hroot behind
  refine ⟨⟨fun heq hroot => ?_, fun htext => ?_⟩, hempty⟩
  · obtain ⟨hone, htwo⟩ := hempty hroot
    by_contra hstray
    rw [hone, htwo, if_neg hstray] at heq
    cases heq
  · by_cases hroot : root
    · obtain ⟨hone, htwo⟩ := hempty hroot
      rw [hone, htwo, if_pos (htext hroot)]
    · exact gist_open?_of_not_rootTag portion hcontent hplace hroot behind

end

/-- An attribute without values may be written in both ways. -/
theorem open?_emptied_attr :
    let before := Utf8.encode
      "<dsml xmlns=\"http://www.dsml.org/DSML\"><directory-entries><entry dn=\"cn=a\">"
    let content := Utf8.encode "attr name=\"cn\""
    let behind := Utf8.encode "</entry></directory-entries></dsml>"
    Emptiable content ∧ gist (open? { bytes := before ++ selfClosed content ++ behind }) =
      gist (open? { bytes := before ++ startAndEnd content ++ behind }) := by
  intro before content behind
  have hcontent : Emptiable content :=
    emptiable_of_selfClosed (by decide +kernel) (by decide +kernel) (by decide +kernel)
  have hplace : (lexFrom 0 (.text []) (before.drop (markLength { bytes := before }))).2 =
      .text [] := by decide +kernel
  have hopened : (nodesOf [] (piecesOf (before.drop (markLength { bytes := before })))).1.all
      Node.isText = false := by decide +kernel
  refine ⟨hcontent, (open?_emptied none hcontent hplace behind).1.2 fun hroot => ?_⟩
  exact absurd (hopened.symm.trans hroot.first) Bool.false_ne_true

/-- An element behind an empty root element is a fault in one of the two ways to write the root
element only. -/
theorem open?_emptied_stray :
    let content := Utf8.encode "dsml xmlns=\"http://www.dsml.org/DSML\""
    let behind := Utf8.encode "<x/>"
    Emptiable content ∧ gist (open? { bytes := selfClosed content ++ behind }) = .ok [] ∧
      gist (open? { bytes := startAndEnd content ++ behind }) = .ok [brokenOff] := by
  intro content behind
  refine ⟨⟨?selfClosed, ?startAndEnd⟩, ?one, ?two⟩
  all_goals decide +kernel

end Dsml

end DirectoryExchange

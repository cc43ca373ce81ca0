import DirectoryExchange.Proofs.Dsml.Entry
import DirectoryExchange.Proofs.Model.ObjectClass

/-!
# The walk over an entry

The reader walks over the pieces of an entry, line by line, to the record that adds the entry with
its object classes in front (`walks_entryPieces`).
-/

namespace DirectoryExchange.Dsml

open Xml

variable (entry : OpenEntry) (count : Nat) (events : List LogEvent)

/-- A line is walked over as what stands on it, where character data is passed over. -/
lemma walks_linePieces {s t : State} {pieces : List Piece}
    {outcomes : List (Except ParseError ChangeRecord)} (hs : ∀ text, s.hear text = s)
    (ht : ∀ text, t.hear text = t) (h : Walks s (pieces.map Piece.node) outcomes t) (indent : Nat) :
    Walks s ((linePieces indent pieces).map Piece.node) outcomes t := by
  have hbefore :
      Walks s [Piece.node (.data (String.ofList (List.replicate indent '\t')))] [] s := by
    refine Walks.single ?_
    rw [Piece.node, step_text, hs]
  have hbehind : Walks t [Piece.node (.data "\n")] [] t := by
    refine Walks.single ?_
    rw [Piece.node, step_text, ht]
  have := (hbefore.append h).append hbehind
  simpa [linePieces] using this

lemma isElement_tagOf (word name : String) (attributes : List (String × String)) :
    isElement (tagOf word attributes) name = (word == name) := by
  rw [isElement, tagOf, beq_self_eq_true, Bool.true_and]

/-- A value that is written as text. -/
lemma walks_plainValue (vs : OpenValues) {value : Bytes} {text : String}
    (htext : Utf8.encode text = value) :
    Walks ⟨.values entry vs, 0, count, events⟩
      ([Piece.opening vs.element [], .data text, .closing vs.element].map Piece.node) []
      ⟨.values entry { vs with values := vs.values ++ [value] }, 0, count, events⟩ := by
  have hopen : State.step ⟨.values entry vs, 0, count, events⟩
      (.opened (tagOf vs.element []) false) =
      .proceed ⟨.value entry vs { encoded := false }, 0, count, events⟩ := by
    have hsame : isElement (tagOf vs.element []) vs.element = true := by simp [isElement_tagOf]
    have hplain : ((tagOf vs.element []).attribute? "encoding" == some "base64") = false := rfl
    simp only [State.step, State.enter, hsame, hplain, if_true, Bool.false_eq_true, if_false]
  have hclose : State.step ⟨.value entry vs { encoded := false, text := value }, 0, count, events⟩
      .closed =
      .proceed ⟨.values entry { vs with values := vs.values ++ [value] }, 0, count, events⟩ := by
    simp [State.step, State.leave, OpenValue.finish]
  refine .proceed hopen (.proceed (step_text _ _) ?_)
  rw [htext]
  exact Walks.single hclose

/-- A value that is written in base64. -/
lemma walks_encodedValue (vs : OpenValues) (value : Bytes) :
    Walks ⟨.values entry vs, 0, count, events⟩
      ([Piece.opening vs.element [("encoding", "base64")], .data (Base64.encode value),
        .closing vs.element].map Piece.node) []
      ⟨.values entry { vs with values := vs.values ++ [value] }, 0, count, events⟩ := by
  have hopen : State.step ⟨.values entry vs, 0, count, events⟩
      (.opened (tagOf vs.element [("encoding", "base64")]) false) =
      .proceed ⟨.value entry vs { encoded := true }, 0, count, events⟩ := by
    have hsame : isElement (tagOf vs.element [("encoding", "base64")]) vs.element = true := by
      simp [isElement_tagOf]
    have hbase64 : ((tagOf vs.element [("encoding", "base64")]).attribute? "encoding" ==
        some "base64") = true := rfl
    simp only [State.step, State.enter, hsame, hbase64, if_true, Bool.false_eq_true, if_false]
  have hclose : State.step ⟨.value entry vs
      { encoded := true, text := Utf8.encode (Base64.encode value) }, 0, count, events⟩ .closed =
      .proceed ⟨.values entry { vs with values := vs.values ++ [value] }, 0, count, events⟩ := by
    simp [State.step, State.leave, OpenValue.finish, Utf8.decodeLossy_encode,
      Base64.decode?_encode]
  exact .proceed hopen (.proceed (step_text _ _) (Walks.single hclose))

/-- The value that is written is the value that is read. -/
lemma walks_valuePieces (vs : OpenValues) (value : Bytes) :
    Walks ⟨.values entry vs, 0, count, events⟩ ((valuePieces vs.element value).map Piece.node) []
      ⟨.values entry { vs with values := vs.values ++ [value] }, 0, count, events⟩ := by
  unfold valuePieces
  split
  · next text htext =>
    split
    · exact walks_plainValue entry count events vs (Utf8.decode?_eq_some_iff.1 htext)
    · exact walks_encodedValue entry count events vs value
  · exact walks_encodedValue entry count events vs value

/-- The walk over the elements of values gathers the values in order. -/
lemma walks_valuesPieces (vs : OpenValues) (values : List Bytes) :
    Walks ⟨.values entry vs, 0, count, events⟩ ((valuesPieces vs.element values).map Piece.node) []
      ⟨.values entry { vs with values := vs.values ++ values }, 0, count, events⟩ := by
  induction values generalizing vs with
  | nil =>
    rw [List.append_nil]
    exact .nil _
  | cons value values ih =>
    have hline := walks_linePieces (fun _ => rfl) (fun _ => rfl)
      (walks_valuePieces entry count events vs value) 4
    have := hline.append (ih { vs with values := vs.values ++ [value] })
    simpa [valuesPieces] using this

/-- The object classes are gathered under their own name. -/
lemma walks_objectClassPieces (values : List Bytes) :
    Walks ⟨.entry entry, 0, count, events⟩ ((objectClassPieces values).map Piece.node) []
      ⟨.entry { entry with draft := entry.draft.pushAll objectClassName values }, 0, count,
        events⟩ := by
  unfold objectClassPieces
  split
  · next hvalues =>
    rw [hvalues, EntryDraft.pushAll_nil]
    exact .nil _
  · have hopen : Walks ⟨.entry entry, 0, count, events⟩
        ((linePieces 3 [.opening "objectclass" []]).map Piece.node) []
        ⟨.values entry ⟨"oc-value", some objectClassName, []⟩, 0, count, events⟩ :=
      walks_linePieces (fun _ => rfl) (fun _ => rfl) (Walks.single rfl) 3
    have hvalues := walks_valuesPieces entry count events
      ⟨"oc-value", some objectClassName, []⟩ values
    have hclose : Walks ⟨.values entry ⟨"oc-value", some objectClassName, values⟩, 0, count, events⟩
        ((linePieces 3 [.closing "objectclass"]).map Piece.node) []
        ⟨.entry { entry with draft := entry.draft.pushAll objectClassName values }, 0, count,
          events⟩ := by
      refine walks_linePieces (fun _ => rfl) (fun _ => rfl) (Walks.single ?_) 3
      simp [Piece.node, State.step, State.leave, OpenEntry.take, objectClassName]
    have := (hopen.append hvalues).append hclose
    simpa using this

/-- The values of an attribute are gathered under its name. -/
lemma walks_attributePieces (a : Attribute) :
    Walks ⟨.entry entry, 0, count, events⟩ ((attributePieces a).map Piece.node) []
      ⟨.entry { entry with draft := entry.draft.pushAll a.name a.values }, 0, count, events⟩ := by
  have hopen : Walks ⟨.entry entry, 0, count, events⟩
      ((linePieces 3 [.opening "attr" [("name", a.name)]]).map Piece.node) []
      ⟨.values entry ⟨"value", some a.name, []⟩, 0, count, events⟩ :=
    walks_linePieces (fun _ => rfl) (fun _ => rfl) (Walks.single rfl) 3
  have hvalues := walks_valuesPieces entry count events
    ⟨"value", some a.name, []⟩ a.values
  have hclose : Walks ⟨.values entry ⟨"value", some a.name, a.values⟩, 0, count, events⟩
      ((linePieces 3 [.closing "attr"]).map Piece.node) []
      ⟨.entry { entry with draft := entry.draft.pushAll a.name a.values }, 0, count, events⟩ := by
    refine walks_linePieces (fun _ => rfl) (fun _ => rfl) (Walks.single ?_) 3
    simp [Piece.node, State.step, State.leave, OpenEntry.take, a.name_ne]
  have := (hopen.append hvalues).append hclose
  simpa [attributePieces] using this

/-- The walk over the elements of attributes gathers them in order. -/
lemma walks_attributes (attributes : List Attribute) :
    Walks ⟨.entry entry, 0, count, events⟩
      ((attributes.flatMap attributePieces).map Piece.node) []
      ⟨.entry { entry with draft := entry.draft.gather attributes }, 0, count, events⟩ := by
  induction attributes generalizing entry with
  | nil => exact .nil _
  | cons a attributes ih =>
    have := (walks_attributePieces entry count events a).append (ih _)
    simpa using this

/-- What has been gathered of an entry when its end tag comes. -/
def gathered (e : Entry) : OpenEntry :=
  ⟨({ dn := e.dn : EntryDraft }.pushAll objectClassName e.objectClasses).gather
    (e.attributes.filter fun a => !a.isObjectClass), none⟩

/-- Nothing is given of an entry before its end tag comes. -/
lemma walks_entryOpening (e : Entry) :
    Walks ⟨.entries, 0, count, events⟩ ((entryOpening e).map Piece.node) []
      ⟨.entry (gathered e), 0, count + 1, events⟩ := by
  have hopen : Walks ⟨.entries, 0, count, events⟩
      ((linePieces 2 [.opening "entry" [("dn", e.dn)]]).map Piece.node) []
      ⟨.entry ⟨{ dn := e.dn }, none⟩, 0, count + 1, events⟩ := by
    refine walks_linePieces (fun _ => rfl) (fun _ => rfl) (Walks.single ?_) 2
    have hdn : ((tagOf "entry" [("dn", e.dn)]).attribute? "dn").getD "" = e.dn := rfl
    have helement : isElement (tagOf "entry" [("dn", e.dn)]) "entry" = true := rfl
    simp only [Piece.node, State.step, State.enter, helement, if_true, Bool.false_eq_true, if_false,
      OpenEntry.ofTag, hdn, if_neg e.dn_ne]
  have htabs : Walks ⟨.entry (gathered e), 0, count + 1, events⟩
      [Piece.node (.data (String.ofList (List.replicate 2 '\t')))] []
      ⟨.entry (gathered e), 0, count + 1, events⟩ := Walks.single (step_text _ _)
  have := ((hopen.append (walks_objectClassPieces _ _ _ e.objectClasses)).append
    (walks_attributes _ _ _ (e.attributes.filter fun a => !a.isObjectClass))).append htabs
  simpa [entryOpening] using this

/-- The end tag gives the record that adds the entry, its object classes in front. -/
lemma step_gathered (e : Entry) :
    State.step ⟨.entry (gathered e), 0, count + 1, events⟩ .closed =
      .give (.ok (.add e.objectClassFirst)) ⟨.entries, 0, count + 1, []⟩ := by
  simp only [State.step, State.leave, State.give, OpenEntry.outcome, gathered,
    EntryDraft.build_objectClassFirst]

/-- The reader walks over the pieces of an entry to the record that adds it, its object classes in
front. -/
theorem walks_entryPieces (e : Entry) :
    Walks ⟨.entries, 0, count, events⟩ ((entryPieces e).map Piece.node)
      [.ok (.add e.objectClassFirst)] ⟨.entries, 0, count + 1, []⟩ := by
  rw [entryPieces_eq, List.map_append]
  refine (walks_entryOpening count events e).append (.give (step_gathered count events e) ?_)
  exact Walks.single (step_text _ _)

end DirectoryExchange.Dsml

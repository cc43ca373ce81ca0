import DirectoryExchange.Proofs.Dsml.EntryWalk
import DirectoryExchange.Proofs.Writer

/-!
# DSML there and back

Entries written as DSML are always read back, with their object classes in front
(`outcomes_writeDocument`): a document is a prolog and pieces, the tags among the pieces fit, and
the walk over them adds entry after entry.
-/

namespace DirectoryExchange.Dsml

open Xml

/-! ### The root element -/

/-- What stands in front of the root element. -/
def instruction : Bytes := Utf8.encode "<?xml version=\"1.0\" encoding=\"UTF-8\"?>\n"

/-- What stands between the brackets of the tag of the root element. -/
def rootContent : Bytes :=
  qualified "dsml" ++ Utf8.encode s!" xmlns:dsml=\"{namespaceUri}\""

/-- The tag of the root element as it is meant. -/
def rootTag : Tag := tagOf "dsml" [("xmlns:dsml", namespaceUri)]

/-- The document down to the tag of the root element. -/
def opening : Bytes := instruction ++ openBracket :: rootContent ++ [closeBracket]

lemma lexes_opening :
    Lexes (.text []) opening [.text [Bytes.lineFeed], .startTag rootContent false] (.text []) := by
  intro taken
  exact ⟨rfl, rfl⟩

/-- The tag of the root element is read as such, and leaves its element open. -/
lemma reads_opening :
    Reads [] [.text [Bytes.lineFeed], .startTag rootContent false]
      [.text [Bytes.lineFeed], .opened rootTag false] [elementOf "dsml"] := by
  have htext : nodeOf? [] (.text [Bytes.lineFeed]) = some (.text [Bytes.lineFeed], []) := by rfl
  have htag : nodeOf? [] (.startTag rootContent false) =
      some (.opened rootTag false, [elementOf "dsml"]) := by
    decide +kernel
  exact (Reads.single htext).append (Reads.single htag)

/-! ### The document behind it -/

/-- The pieces of the document behind the tag of the root element and down to the last entry. -/
def documentFront (entries : List Entry) : List Piece :=
  .data "\n" :: linePieces 1 [.opening "directory-entries" []] ++ entries.flatMap entryPieces

/-- The pieces of the document behind the tag of the root element. -/
def documentPieces (entries : List Entry) : List Piece :=
  .data "\n" :: linePieces 1 [.opening "directory-entries" []] ++ entries.flatMap entryPieces ++
    linePieces 1 [.closing "directory-entries"] ++ linePieces 0 [.closing "dsml"]

/-- A document ends with the two end tags behind the entries. -/
lemma documentPieces_eq (entries : List Entry) :
    documentPieces entries = documentFront entries ++
      linePieces 1 [.closing "directory-entries"] ++ linePieces 0 [.closing "dsml"] := rfl

/-- Entries are printed as their pieces, one entry behind the other. -/
lemma renderFrom_eq (written : Nat) (entries : List Entry) :
    Format.dsml.renderFrom written entries = octets (entries.flatMap entryPieces) := by
  induction entries generalizing written with
  | nil => rfl
  | cons e entries ih =>
    rw [Format.renderFrom, ih, List.flatMap_cons, octets_append, ← renderEntry_eq]
    rfl

/-- The prolog and the entries are the opening and the pieces behind it. -/
lemma prolog_renderFrom_eq (entries : List Entry) :
    Format.dsml.prolog?.getD [] ++ Format.dsml.renderFrom 0 entries =
      opening ++ octets (documentFront entries) := by
  have hopen : Utf8.encode "<dsml:directory-entries>" =
      (Piece.opening "directory-entries" []).octets := by
    decide
  have hfirst : Utf8.encode (line 0 "<?xml version=\"1.0\" encoding=\"UTF-8\"?>" ++
      line 0 s!"<dsml:dsml xmlns:dsml=\"{namespaceUri}\">") = opening ++ Utf8.encode "\n" := by
    decide +kernel
  have hbreak : (Piece.data "\n").octets = Utf8.encode "\n" := by decide
  rw [Format.prolog?, Option.getD_some, prologLines, Utf8.encode_append, hfirst,
    encode_tagLine hopen, renderFrom_eq, documentFront, octets_append, octets_cons, hbreak]
  simp only [List.append_assoc]

/-- A document is its opening and the pieces behind it. -/
theorem render_eq (entries : List Entry) :
    Format.dsml.render entries = opening ++ octets (documentPieces entries) := by
  have hepilogue : Format.dsml.epilogue?.getD [] =
      octets (linePieces 1 [.closing "directory-entries"] ++ linePieces 0 [.closing "dsml"]) := by
    have hinner : Utf8.encode "</dsml:directory-entries>" =
        (Piece.closing "directory-entries").octets := by
      decide
    have houter : Utf8.encode "</dsml:dsml>" = (Piece.closing "dsml").octets := by decide
    rw [Format.epilogue?, Option.getD_some, epilogueLines, Utf8.encode_append,
      encode_tagLine hinner, encode_tagLine houter, octets_append]
  rw [Format.render, prolog_renderFrom_eq, hepilogue, documentPieces_eq, List.append_assoc,
    List.append_assoc, ← octets_append]

/-- Every tag of a document is read as such. -/
lemma proper_documentPieces (entries : List Entry) : ∀ p ∈ documentPieces entries, p.Proper := by
  have hentries : ∀ p ∈ entries.flatMap entryPieces, p.Proper := by
    intro p hp
    obtain ⟨e, -, hp⟩ := List.mem_flatMap.1 hp
    exact proper_entryPieces e p hp
  refine forall_mem_append (forall_mem_append (forall_mem_append ?_ hentries) ?_) ?_
  · exact List.forall_mem_cons.2 ⟨trivial, proper_line_of (proper_bare (by decide)) 1⟩
  · exact proper_line_of (proper_closing (by decide)) 1
  · exact proper_line_of (proper_closing (by decide)) 0

/-- Behind the entries two elements are open. -/
lemma nest_documentFront (entries : List Entry) :
    nest ["dsml"] (documentFront entries) = some ["directory-entries", "dsml"] := by
  have hentries : nest ["directory-entries", "dsml"] (entries.flatMap entryPieces) =
      some ["directory-entries", "dsml"] := by
    induction entries with
    | nil => rfl
    | cons e entries ih =>
      rw [List.flatMap_cons, nest_append, nest_entryPieces (by decide), Option.bind_some, ih]
  simp [documentFront, nest_append, nest_linePieces, nest, hentries]

lemma nest_documentPieces (entries : List Entry) :
    nest ["dsml"] (documentPieces entries) = some [] := by
  simp [documentPieces_eq, nest_append, nest_documentFront, nest_linePieces, nest, closeElement]

/-- The reader walks over the entries of a document. -/
lemma walks_documentFront (entries : List Entry) :
    Walks {} ((documentFront entries).map Piece.node)
      (entries.map fun e => .ok (.add e.objectClassFirst)) ⟨.entries, 0, entries.length, []⟩ := by
  have hopen : Walks {} ((linePieces 1 [.opening "directory-entries" []]).map Piece.node) []
      { place := .entries } :=
    walks_linePieces (fun _ => rfl) (fun _ => rfl) (Walks.single rfl) 1
  have hentries : ∀ count, Walks ⟨.entries, 0, count, []⟩
      ((entries.flatMap entryPieces).map Piece.node)
      (entries.map fun e => .ok (.add e.objectClassFirst))
      ⟨.entries, 0, count + entries.length, []⟩ := by
    induction entries with
    | nil => exact fun count => .nil _
    | cons e entries ih =>
      intro count
      have hcount : count + (e :: entries).length = count + 1 + entries.length := by
        rw [List.length_cons]
        omega
      rw [List.flatMap_cons, List.map_append, hcount]
      exact (walks_entryPieces count [] e).append (ih (count + 1))
  refine .proceed (step_text _ _) ?_
  have hdeaf : State.hear {} (Utf8.encode "\n") = {} := rfl
  have := hopen.append (hentries 0)
  rw [hdeaf]
  simpa using this

/-- The end of the entries leads back into the root element. -/
lemma walks_entriesEnd (count : Nat) : Walks ⟨.entries, 0, count, []⟩
    ((linePieces 1 [.closing "directory-entries"]).map Piece.node) [] ⟨.root, 0, count, []⟩ :=
  walks_linePieces (fun _ => rfl) (fun _ => rfl) (Walks.single rfl) 1

/-- The reader walks over the entries of a document to its end. -/
lemma walks_documentPieces (entries : List Entry) :
    ∃ s : State, s.place = .trailing ∧
      Walks {} ((documentPieces entries).map Piece.node)
        (entries.map fun e => .ok (.add e.objectClassFirst)) s := by
  have houter : ∀ count, Walks ⟨.root, 0, count, []⟩
      ((linePieces 0 [.closing "dsml"]).map Piece.node) [] ⟨.trailing, 0, count, []⟩ :=
    fun count => walks_linePieces (fun _ => rfl) (fun _ => rfl) (Walks.single rfl) 0
  refine ⟨⟨.trailing, 0, entries.length, []⟩, rfl, ?_⟩
  have := ((walks_documentFront entries).append (walks_entriesEnd _)).append (houter _)
  rw [documentPieces_eq]
  simpa using this

/-! ### Reading the document -/

/-- The nodes of the document behind its root tag are read to its end. -/
lemma outcomes_feedNodes_document (entries : List Entry) {placed : List PlacedNode}
    (hplaced : placed.map (·.node) = nodes "" (documentPieces entries)) (extent : Nat) :
    (feedNodes true extent {} placed).items.map (·.outcome) =
      entries.map fun e => .ok (.add e.objectClassFirst) := by
  obtain ⟨s, hplace, hwalk⟩ := walks_documentPieces entries
  have hnodes : Walks {} (nodes "" (documentPieces entries))
      (entries.map fun e => .ok (.add e.objectClassFirst)) s :=
    walks_nodes (.proceed (step_text _ _) hwalk)
  have houtcomes := outcomes_feedNodes hnodes hplaced true extent []
  have hend : (feedNodes true extent s []).items = [] := by
    rw [feedNodes, endFeed]
    simp [hplace]
  rw [List.append_nil, hend, List.map_nil, List.append_nil, List.map_map] at houtcomes
  exact houtcomes

/-- A document is read as records that add its entries, object classes in front. -/
theorem outcomes_open?_render (entries : List Entry) (portion : Option Nat) :
    ∃ f, open? { bytes := Format.dsml.render entries, portion } = .ok f ∧
      f.items.map (·.outcome) = entries.map fun e => .ok (.add e.objectClassFirst) := by
  obtain ⟨ms, final, hlex, hms⟩ := lexes_pieces (proper_documentPieces entries) ""
  have hread := reads_opening.append
    (reads_markups (proper_documentPieces entries) (nest_documentPieces entries) "")
  rw [← hms, ← List.append_assoc] at hread
  have hmark : byteOrderMark.isPrefixOf (opening ++ octets (documentPieces entries)) = false := rfl
  have hstart := markLength_of_unmarked hmark portion
  obtain ⟨placed, hplaced, hdocument⟩ := ofSource_of_lexes
    { bytes := opening ++ octets (documentPieces entries), portion } rfl
    (by rw [hstart]; exact lexes_opening.append hlex) hread
  rw [hstart] at hdocument
  obtain ⟨first, placed, rfl, hfirst, hplaced⟩ := List.map_eq_cons_iff.1 hplaced
  obtain ⟨root, placed, rfl, hroot, hplaced⟩ := List.map_eq_cons_iff.1 hplaced
  have helement : isElement rootTag "dsml" = true := by decide
  rw [render_eq, open?, hdocument]
  simp only [openNodes, hfirst, hroot, helement, if_true, Bool.false_eq_true, if_false]
  refine ⟨_, rfl, ?_⟩
  simp only [Feed.behind_zero]
  exact outcomes_feedNodes_document entries hplaced _

/-- On a reliable stream entries can always be written as DSML and read back, each by a record of
its own and in order, as they were but for the object classes, which come first. -/
theorem outcomes_writeDocument {ω : Type} (output : Output ω) (houtput : output.sink.Reliable)
    (hempty : output.written = []) (entries : List Entry) (portion : Option Nat) :
    ∃ w f, Writer.writeDocument .dsml output entries = (.ok (), w) ∧
      open? { bytes := w.output.written, portion } = .ok f ∧
      f.items.map (·.outcome) = entries.map fun e => .ok (.add e.objectClassFirst) := by
  obtain ⟨w, hwrite, hwritten⟩ := Writer.writeDocument_of_reliable houtput .dsml entries
  obtain ⟨f, hopen, houtcomes⟩ := outcomes_open?_render entries portion
  rw [hempty, List.nil_append] at hwritten
  exact ⟨w, f, hwrite, by rw [hwritten, hopen], houtcomes⟩

/-- An entry with its object class behind is read back with the class in front. -/
theorem outcomes_writeDocument_classLast :
    let e : Entry := ⟨"cn=<a>", [⟨"cn", [[0x3C], []], by decide, by decide⟩,
      ⟨"ObjectClass", [[0x00]], by decide, by decide⟩], by decide, by decide⟩
    let f : Entry := ⟨"cn=<a>", [⟨"objectclass", [[0x00]], by decide, by decide⟩,
      ⟨"cn", [[0x3C], []], by decide, by decide⟩], by decide, by decide⟩
    ∃ w feed, Writer.writeDocument .dsml ⟨Sink.boundless, (), [], 0⟩ [e] = (.ok (), w) ∧
      open? { bytes := w.output.written } = .ok feed ∧
      feed.items.map (·.outcome) = [.ok (.add f)] := by
  intro e f
  have hfirst : e.objectClassFirst = f := by decide
  have := outcomes_writeDocument ⟨Sink.boundless, (), [], 0⟩ Sink.reliable_boundless rfl [e] none
  rwa [List.map_singleton, hfirst] at this

end DirectoryExchange.Dsml

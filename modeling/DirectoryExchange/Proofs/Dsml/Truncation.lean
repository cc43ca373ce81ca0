import DirectoryExchange.Proofs.Dsml.RoundTrip
import DirectoryExchange.Proofs.Transfer.Course

/-!
# Documents that are cut off

A document that is cut off before the last bracket of its last end tag is never taken for a whole
one (`outcomes_open?_of_isPrefix`).  The nodes that are over within it are the first ones of those
of the whole document, so that the reader gives the entries whose end tags are over.  The walk has
not come to the end of the root element when the octets end, and that is a fault.
-/

namespace DirectoryExchange.Dsml

open Xml Transfer

/-! ### Octets up to an end tag -/

/-- The nodes of the document down to the tag of the root element. -/
def rootNodes : List Node := [.text [Bytes.lineFeed], .opened rootTag false]

section EndTag

variable {pieces : List Piece} (hproper : ∀ p ∈ pieces, p.Proper) {words : List String}
  {word : String} (hword : IsWord word)

include hproper hword

/-- As long as the last bracket of an end tag is missing, the nodes in front of it are over. -/
lemma nodesOver_beforeClosing (hnest : nest ["dsml"] pieces = some words) :
    (nodesOver (opening ++ octets pieces ++ openBracket :: slash :: qualified word)).1.map
        (·.node) = rootNodes ++ nodes "" pieces ∧
      (nodesOver (opening ++ octets pieces ++ openBracket :: slash :: qualified word)).2 =
        true := by
  obtain ⟨ms, final, hlex, hms⟩ := lexes_pieces hproper ""
  have htag := lexes_endTagOpening
    (fun b hb => isBare_of_isNameOctet (isNameOctet_qualified hword b hb)) final
  have hread := reads_opening.append (reads_markups hproper hnest "")
  rw [← hms, ← List.append_assoc] at hread
  exact nodesOver_of_lexes ((lexes_opening.append hlex).append htag) hread

/-- With the last bracket the element is over. -/
lemma nodesOver_behindClosing (hnest : nest ["dsml"] (pieces ++ [.closing word]) = some words) :
    (nodesOver (opening ++ octets pieces ++ (Piece.closing word).octets)).1.map (·.node) =
        rootNodes ++ (nodes "" pieces ++ [.closed]) := by
  obtain ⟨ms, final, hlex, hms⟩ := lexes_pieces hproper ""
  have htag := lexes_endTag
    (fun b hb => isBare_of_isNameOctet (isNameOctet_qualified hword b hb)) final
  have hread := reads_opening.append
    (reads_markups (forall_mem_append hproper (by simpa using proper_closing hword)) hnest "")
  rw [markups_concat_closing, nodes_concat_closing, ← hms, List.append_assoc ms,
    ← List.append_assoc] at hread
  exact (nodesOver_of_lexes ((lexes_opening.append hlex).append htag) hread).1

end EndTag

/-! ### What is told within octets -/

/-- Within the octets the root element has begun, and a walk over the nodes that are over in it
gives these outcomes and comes to the state. -/
def Tells (v : Bytes) (outcomes : List (Except ParseError ChangeRecord)) (t : State) : Prop :=
  ∃ inside, (nodesOver v).1.map (·.node) = rootNodes ++ inside ∧ Walks {} inside outcomes t

section Tells

variable {v w : Bytes} {outcomes others : List (Except ParseError ChangeRecord)} {t u : State}

/-- More octets tell what the first ones tell, and then possibly more. -/
lemma Tells.isPrefix (h : Tells v outcomes t) (h' : Tells w others u) (hvw : v <+: w) :
    outcomes <+: others := by
  obtain ⟨inside, hinside, hwalk⟩ := h
  obtain ⟨more, hmore, hwalk'⟩ := h'
  have hnodes := (nodesOver_of_isPrefix hvw).1.map (·.node)
  rw [hinside, hmore, List.prefix_append_right_inj] at hnodes
  exact hwalk.isPrefix hwalk' hnodes

/-- Octets that are cut off behind the tag of the root element tell something, and the root element
is not over if it is not over in the whole. -/
lemma Tells.exists_of_isPrefix (h : Tells w others u) (hu : u.place ≠ .trailing) (hvw : v <+: w)
    (hopening : opening <+: v) : ∃ outcomes t, Tells v outcomes t ∧ t.place ≠ .trailing := by
  obtain ⟨more, hmore, hwalk⟩ := h
  have hroot := (nodesOver_of_lexes lexes_opening reads_opening).1
  have hbegins := (nodesOver_of_isPrefix hopening).1.map (·.node)
  rw [hroot] at hbegins
  obtain ⟨inside, hinside⟩ := hbegins
  have hnodes := (nodesOver_of_isPrefix hvw).1.map (·.node)
  rw [← hinside, hmore] at hnodes
  obtain ⟨rest, rfl⟩ := (List.prefix_append_right_inj rootNodes).1 hnodes
  obtain ⟨t, first, second, -, hfirst, hsecond⟩ := hwalk.split
  exact ⟨first, t, ⟨inside, hinside.symm, hfirst⟩, fun ht => hu (hsecond.trailing ht)⟩

/-- A document that is cut off inside the root element is read as what is told within it, and a
fault behind that. -/
lemma Tells.exists_open? (h : Tells v outcomes t) (ht : t.place ≠ .trailing)
    (hover : (nodesOver v).2 = true) (hmark : byteOrderMark.isPrefixOf v = false)
    (portion : Option Nat) :
    ∃ feed e, open? { bytes := v, portion } = .ok feed ∧ e.mayContinue = false ∧
      feed.items.map (·.outcome) =
        outcomes.map (·.mapError ReadError.parse) ++ [.error (.parse e)] := by
  obtain ⟨inside, hinside, hwalk⟩ := h
  obtain ⟨texts, whole, extent, htexts, hdocument⟩ :=
    ofSource_of_nodesOver hmark portion hover
  obtain ⟨first, placed, hplaced, hfirst, hrest⟩ := List.map_eq_cons_iff.1 hinside
  obtain ⟨root, placed, rfl, hroot, hplaced'⟩ := List.map_eq_cons_iff.1 hrest
  have helement : isElement rootTag "dsml" = true := by decide
  obtain ⟨e, hfatal, hfault⟩ := outcomes_feedNodes_texts ht whole extent htexts
  rw [open?, hdocument, hplaced]
  simp only [List.cons_append, openNodes, hfirst, hroot, helement, if_true, Bool.false_eq_true,
    if_false]
  refine ⟨_, e, rfl, hfatal, ?_⟩
  simp only [Feed.behind_zero]
  rw [outcomes_feedNodes hwalk hplaced' whole extent texts, hfault]

end Tells

/-! ### What is told of entries -/

/-- The outcomes of a document of these entries. -/
def additions (entries : List Entry) : List (Except ParseError ChangeRecord) :=
  entries.map fun e => .ok (.add e.objectClassFirst)

lemma additions_concat (others : List Entry) (e : Entry) :
    additions (others ++ [e]) = additions others ++ [.ok (.add e.objectClassFirst)] :=
  List.map_append

/-- One entry more is put behind the front of the document. -/
lemma documentFront_concat (others : List Entry) (e : Entry) :
    documentFront (others ++ [e]) =
      documentFront others ++ entryOpening e ++ [.closing "entry", .data "\n"] := by
  simp [documentFront, entryPieces_eq]

lemma proper_documentFront (entries : List Entry) : ∀ p ∈ documentFront entries, p.Proper :=
  fun p hp => proper_documentPieces entries p
    (List.mem_append_left _ (List.mem_append_left _ hp))

section EntryEnd

variable (others : List Entry) (e : Entry)

lemma proper_entryFront : ∀ p ∈ documentFront others ++ entryOpening e, p.Proper := by
  intro p hp
  refine proper_documentFront (others ++ [e]) p ?_
  rw [documentFront_concat]
  exact List.mem_append_left _ hp

/-- Up to that end tag the tags fit. -/
lemma exists_nest_entryFront : ∃ words,
    nest ["dsml"] (documentFront others ++ entryOpening e ++ [.closing "entry"]) = some words := by
  have hnest := nest_documentFront (others ++ [e])
  have hcut : [Piece.closing "entry", .data "\n"] = [.closing "entry"] ++ [.data "\n"] := rfl
  rw [documentFront_concat, hcut, ← List.append_assoc] at hnest
  obtain ⟨words, hwords, -⟩ := exists_nest_of_append hnest
  exact ⟨words, hwords⟩

/-- The walk up to the end tag of an entry has added the others and gathered this one. -/
lemma walks_entryFront : Walks {} (nodes "" (documentFront others ++ entryOpening e))
    (additions others) ⟨.entry (gathered e), 0, others.length + 1, []⟩ := by
  refine walks_nodes (.proceed (step_text _ _) ?_)
  have := (walks_documentFront others).append (walks_entryOpening others.length [] e)
  rwa [List.append_nil, ← List.map_append] at this

/-- As long as the last bracket of its end tag is missing, nothing is told of an entry. -/
lemma tells_beforeEndTag : ∃ t, Tells (opening ++ octets (documentFront others ++ entryOpening e) ++
    openBracket :: slash :: qualified "entry") (additions others) t := by
  obtain ⟨words, hnest⟩ := exists_nest_entryFront others e
  obtain ⟨inner, hinner, -⟩ := exists_nest_of_append hnest
  exact ⟨_, _, (nodesOver_beforeClosing (proper_entryFront others e) (by decide) hinner).1,
    walks_entryFront others e⟩

/-- With its end tag an entry is told. -/
lemma tells_behindEndTag : ∃ t, Tells (opening ++ octets (documentFront others ++ entryOpening e) ++
    (Piece.closing "entry").octets) (additions (others ++ [e])) t := by
  obtain ⟨words, hnest⟩ := exists_nest_entryFront others e
  have hwalk :=
    (walks_entryFront others e).append (.give (step_gathered others.length [] e) (.nil _))
  rw [← additions_concat] at hwalk
  exact ⟨_, _, nodesOver_behindClosing (proper_entryFront others e) (by decide) hnest, hwalk⟩

end EntryEnd

/-- The pieces of the document in front of its last end tag. -/
def piecesBeforeEnd (entries : List Entry) : List Piece :=
  documentFront entries ++ linePieces 1 [.closing "directory-entries"] ++
    [.data (String.ofList (List.replicate 0 '\t'))]

/-- The last piece of a document but the line end is the end tag of the root. -/
lemma documentPieces_eq_beforeEnd (entries : List Entry) :
    documentPieces entries = piecesBeforeEnd entries ++ [.closing "dsml", .data "\n"] := by
  rw [documentPieces_eq, piecesBeforeEnd, List.append_assoc _ [Piece.data _]]
  rfl

/-- The document without the last bracket of its last end tag and the line feed behind it. -/
def allButEnd (entries : List Entry) : Bytes :=
  opening ++ octets (piecesBeforeEnd entries) ++ openBracket :: slash :: qualified "dsml"

/-- The last octets of a document are a bracket and a line end. -/
lemma render_eq_allButEnd (entries : List Entry) :
    Format.dsml.render entries = allButEnd entries ++ [closeBracket, Bytes.lineFeed] := by
  have hbreak : Utf8.encode (escape "\n") = [Bytes.lineFeed] := by decide
  rw [render_eq, documentPieces_eq_beforeEnd, allButEnd]
  simp [Piece.octets, hbreak]

/-- Without its last bracket the document tells of all entries, and the root element is not over. -/
lemma tells_allButEnd (entries : List Entry) :
    Tells (allButEnd entries) (additions entries) ⟨.root, 0, entries.length, []⟩ ∧
      (nodesOver (allButEnd entries)).2 = true := by
  have hproper : ∀ p ∈ piecesBeforeEnd entries, p.Proper := by
    intro p hp
    refine proper_documentPieces entries p ?_
    rw [documentPieces_eq_beforeEnd]
    exact List.mem_append_left _ hp
  have hnest := nest_documentPieces entries
  rw [documentPieces_eq_beforeEnd] at hnest
  obtain ⟨words, hwords, -⟩ := exists_nest_of_append hnest
  have hwalk : Walks {} ((piecesBeforeEnd entries).map Piece.node) (additions entries)
      ⟨.root, 0, entries.length, []⟩ := by
    have hindent : Walks ⟨.root, 0, entries.length, []⟩
        [Piece.node (.data (String.ofList (List.replicate 0 '\t')))] []
        ⟨.root, 0, entries.length, []⟩ := Walks.single (step_text _ _)
    have := ((walks_documentFront entries).append (walks_entriesEnd _)).append hindent
    rw [List.append_nil, List.append_nil, ← List.map_append] at this
    rw [piecesBeforeEnd, List.map_append]
    exact this
  have hword : IsWord "dsml" := by decide
  obtain ⟨hnodes, hover⟩ := nodesOver_beforeClosing hproper hword hwords
  exact ⟨⟨_, hnodes, walks_nodes (.proceed (step_text _ _) hwalk)⟩, hover⟩

/-! ### Documents that are cut off -/

/-- The document through the end tag of the entry at that place, without the line feed behind it. -/
def throughEntry (entries : List Entry) (i : Nat) : Bytes :=
  (Format.dsml.prolog?.getD [] ++ Format.dsml.renderFrom 0 (entries.take (i + 1))).dropLast

/-- Up to the end tag of any of its entries a document is cut off. -/
lemma throughEntry_isPrefix (entries : List Entry) (i : Nat) :
    throughEntry entries i <+: Format.dsml.render entries := by
  obtain ⟨rest, hrest⟩ := List.take_prefix (i + 1) entries
  have hfront : Format.dsml.renderFrom 0 (entries.take (i + 1)) <+:
      Format.dsml.renderFrom 0 (entries.take (i + 1) ++ rest) := by
    rw [renderFrom_eq, renderFrom_eq, List.flatMap_append, octets_append]
    exact List.prefix_append _ _
  rw [hrest] at hfront
  refine (List.dropLast_prefix _).trans ?_
  rw [Format.render]
  exact ((List.prefix_append_right_inj _).2 hfront).trans (List.prefix_append _ _)

/-- A document up to the end of an entry ends with the end tag. -/
lemma throughEntry_eq {entries : List Entry} {i : Nat} (hi : i < entries.length) :
    throughEntry entries i = opening ++
      octets (documentFront (entries.take i) ++ entryOpening entries[i]) ++
        (Piece.closing "entry").octets := by
  have hbreak : (Piece.data "\n").octets = [Bytes.lineFeed] := by decide
  rw [throughEntry, prolog_renderFrom_eq, ← List.take_append_getElem hi, documentFront_concat,
    octets_append, octets_cons, octets_cons, octets_nil, hbreak, List.append_nil,
    ← List.append_assoc, ← List.append_assoc, List.dropLast_concat]

example : (Piece.closing "entry").octets = Utf8.encode "</dsml:entry>" := by decide

/-- A document without the root element of the format is none of the format. -/
lemma openNodes_texts (whole : Bool) (extent : Nat) {placed : List PlacedNode}
    (h : ∀ x ∈ placed, ∃ value, x.node = .text value) :
    ∃ e, openNodes whole extent placed = .error (.parse e) ∧ e.mayContinue = false := by
  induction placed with
  | nil =>
    rw [openNodes]
    split
    · exact ⟨_, rfl, rfl⟩
    · exact ⟨_, rfl, rfl⟩
  | cons x placed ih =>
    obtain ⟨⟨value, hvalue⟩, hplaced⟩ := List.forall_mem_cons.1 h
    rw [openNodes, hvalue]
    exact ih hplaced

/-- If the tag of the root element is cut off, the document cannot be opened. -/
lemma exists_open?_error {v : Bytes} (hv : v <+: opening) (hne : v ≠ opening)
    (hmark : byteOrderMark.isPrefixOf v = false) (portion : Option Nat) :
    ∃ e, open? { bytes := v, portion } = .error (.parse e) ∧ e.mayContinue = false := by
  have hcut : v <+: instruction ++ openBracket :: rootContent :=
    (List.prefix_concat_iff.1 hv).resolve_left hne
  have hlex : Lexes (.text []) (instruction ++ openBracket :: rootContent)
      [.text [Bytes.lineFeed]] (.startTag none rootContent.reverse) :=
    fun taken => ⟨rfl, rfl⟩
  have hread : Reads [] [.text [Bytes.lineFeed]] [.text [Bytes.lineFeed]] [] :=
    Reads.single rfl
  obtain ⟨hnodes, hover⟩ := nodesOver_of_lexes hlex hread
  obtain ⟨hfirst, hover'⟩ := nodesOver_of_isPrefix hcut
  obtain ⟨texts, whole, extent, htexts, hdocument⟩ :=
    ofSource_of_nodesOver hmark portion (hover' hover)
  have hall : ∀ x ∈ (nodesOver v).1 ++ texts, ∃ value, x.node = .text value := by
    intro x hx
    rcases List.mem_append.1 hx with hx | hx
    · have hnode := List.mem_map_of_mem (f := (·.node)) (hfirst.subset hx)
      rw [hnodes, List.mem_singleton] at hnode
      exact ⟨_, hnode⟩
    · exact htexts x hx
  obtain ⟨e, hfailed, hfatal⟩ := openNodes_texts whole extent hall
  exact ⟨e, by simp only [open?, hdocument, hfailed, Except.map], hfatal⟩

section Cut

variable {entries : List Entry} {v : Bytes}

/-- A document that lacks the last bracket is cut off before it. -/
lemma prefix_allButEnd (hv : v <+: Format.dsml.render entries)
    (hcut : v.length + 2 ≤ (Format.dsml.render entries).length) : v <+: allButEnd entries := by
  have hwhole := render_eq_allButEnd entries
  refine List.prefix_of_prefix_length_le hv (hwhole ▸ List.prefix_append _ _) ?_
  rw [hwhole, List.length_append] at hcut
  exact Nat.le_of_add_le_add_right hcut

/-- What is told within a document that is cut off are the first entries. -/
lemma exists_eq_additions {outcomes : List (Except ParseError ChangeRecord)}
    (h : outcomes <+: additions entries) :
    ∃ k, k ≤ entries.length ∧ outcomes = additions (entries.take k) := by
  refine ⟨outcomes.length, ?_, ?_⟩
  · simpa [additions] using h.length_le
  · rw [additions, List.map_take]
    exact List.prefix_iff_eq_take.1 h

/-- Fewer additions are those of fewer entries. -/
lemma le_of_additions_isPrefix {first second : List Entry}
    (h : additions first <+: additions second) : first.length ≤ second.length := by
  simpa [additions] using h.length_le

/-- The entries that are told are those whose end tags are over. -/
lemma Tells.lt_iff {k : Nat} {t : State} (h : Tells v (additions (entries.take k)) t)
    (hk : k ≤ entries.length) (hv : v <+: Format.dsml.render entries) {i : Nat}
    (hi : i < entries.length) : i < k ↔ throughEntry entries i <+: v := by
  have hlength : (entries.take k).length = k := List.length_take_of_le hk
  have hbefore : (entries.take i).length = i := List.length_take_of_le (Nat.le_of_lt hi)
  constructor
  · intro hlt
    refine Decidable.byContradiction fun hover => ?_
    have hcut : v <+: throughEntry entries i :=
      (List.prefix_or_prefix_of_prefix hv (throughEntry_isPrefix entries i)).resolve_right hover
    have hne : v ≠ throughEntry entries i := fun heq => hover (heq ▸ List.prefix_refl _)
    have htag : (Piece.closing "entry").octets =
        (openBracket :: slash :: qualified "entry") ++ [closeBracket] := by
      decide
    rw [throughEntry_eq hi, htag, ← List.append_assoc] at hcut hne
    have hmissing := (List.prefix_concat_iff.1 hcut).resolve_left hne
    obtain ⟨u, htells⟩ := tells_beforeEndTag (entries.take i) entries[i]
    have hle := le_of_additions_isPrefix (h.isPrefix htells hmissing)
    omega
  · intro hover
    rw [throughEntry_eq hi] at hover
    obtain ⟨u, htells⟩ := tells_behindEndTag (entries.take i) entries[i]
    have hle := le_of_additions_isPrefix (htells.isPrefix h hover)
    rw [List.length_append, List.length_singleton] at hle
    omega

/-- A document that is cut off before the last bracket of its last end tag cannot be opened if it is
cut off within the tag of the root element.  Else it is read as the additions of the entries whose
end tags are over, and a fault behind which nothing is read. -/
theorem outcomes_open?_of_isPrefix (hv : v <+: Format.dsml.render entries)
    (hcut : v.length + 2 ≤ (Format.dsml.render entries).length) (portion : Option Nat) :
    ∃ e : ParseError, e.mayContinue = false ∧
      ((¬ opening <+: v ∧ open? { bytes := v, portion } = .error (.parse e)) ∨
        (opening <+: v ∧ ∃ feed k, open? { bytes := v, portion } = .ok feed ∧
          k ≤ entries.length ∧ (∀ i < entries.length, i < k ↔ throughEntry entries i <+: v) ∧
          feed.items.map (·.outcome) =
            (entries.take k).map (fun e => .ok (.add e.objectClassFirst)) ++
              [.error (.parse e)])) := by
  have hwhole := hv
  rw [render_eq] at hwhole
  have hmark : byteOrderMark.isPrefixOf v = false := by
    obtain ⟨rest, hrest⟩ := hwhole
    cases v with
    | nil => rfl
    | cons b v =>
      obtain ⟨rfl, -⟩ := List.cons.inj hrest
      rfl
  -- if the opening is cut there is no document, else the entries are told up to the cut
  by_cases hopening : opening <+: v
  · have htold := tells_allButEnd entries
    have hinside := prefix_allButEnd hv hcut
    obtain ⟨outcomes, t, htells, ht⟩ := htold.1.exists_of_isPrefix nofun hinside hopening
    obtain ⟨feed, e, hopen, hfatal, houtcomes⟩ := htells.exists_open? ht
      ((nodesOver_of_isPrefix hinside).2 htold.2) hmark portion
    obtain ⟨k, hk, rfl⟩ := exists_eq_additions (htells.isPrefix htold.1 hinside)
    refine ⟨e, hfatal, .inr ⟨hopening, feed, k, hopen, hk, fun i hi => htells.lt_iff hk hv hi, ?_⟩⟩
    rw [houtcomes, additions, List.map_map]
    rfl
  · have hstart : v <+: opening :=
      (List.prefix_or_prefix_of_prefix hwhole (List.prefix_append _ _)).resolve_right hopening
    have hne : v ≠ opening := fun heq => hopening (heq ▸ List.prefix_refl _)
    obtain ⟨e, hopen, hfatal⟩ := exists_open?_error hstart hne hmark portion
    exact ⟨e, hfatal, .inl ⟨hopening, hopen⟩⟩

end Cut

/-- A document that the writer wrote and that is cut off before the last bracket of its last end tag
is never taken for a whole one.  Either it cannot be opened, or the entries whose end tags are over
are read as the records that add them, and a fault behind which nothing is read.  No load of it is
complete, in whatever mode. -/
theorem outcomes_writeDocument_take {ω : Type} (output : Output ω) (houtput : output.sink.Reliable)
    (hempty : output.written = []) (entries : List Entry) {n : Nat}
    (hcut : n + 2 ≤ (Format.dsml.render entries).length) (portion : Option Nat) :
    ∃ w, Writer.writeDocument .dsml output entries = (.ok (), w) ∧
      w.output.written = Format.dsml.render entries ∧
      let source : Source := { bytes := w.output.written.take n, portion }
      (∃ e : ParseError, e.mayContinue = false ∧
        ((¬ opening <+: source.bytes ∧ open? source = .error (.parse e)) ∨
          (opening <+: source.bytes ∧ ∃ feed k, open? source = .ok feed ∧ k ≤ entries.length ∧
            (∀ i < entries.length, i < k ↔ throughEntry entries i <+: source.bytes) ∧
            feed.items.map (·.outcome) =
              (entries.take k).map (fun e => .ok (.add e.objectClassFirst)) ++
                [.error (.parse e)]))) ∧
      ∀ {σ : Type} (connection : Connection σ) (state : σ) (closing : Option StreamError)
        (options : LoadOptions) (summary : LoadSummary),
        (load connection state ⟨open? source, closing⟩ options).result = .ok summary →
          summary.complete = false := by
  obtain ⟨w, hwrite, hwritten⟩ := Writer.writeDocument_of_reliable houtput .dsml entries
  rw [hempty, List.nil_append] at hwritten
  refine ⟨w, hwrite, hwritten, ?_⟩
  rw [hwritten]
  have hlength : ((Format.dsml.render entries).take n).length + 2 ≤
      (Format.dsml.render entries).length := by
    rw [List.length_take]
    omega
  obtain ⟨e, hfatal, hread⟩ :=
    outcomes_open?_of_isPrefix (List.take_prefix n _) hlength portion
  refine ⟨⟨e, hfatal, hread⟩, fun connection state closing options summary hresult => ?_⟩
  -- neither a document that does not open nor a fatal error counts as complete
  obtain ⟨-, hopen⟩ | ⟨-, feed, k, hopen, -, -, houtcomes⟩ := hread
  · exact incomplete_of_unopened hopen hresult
  · have hlast : .error (.parse e) ∈ feed.items.map (·.outcome) :=
      houtcomes ▸ List.mem_append_right _ List.mem_cons_self
    obtain ⟨item, hitem, houtcome⟩ := List.mem_map.1 hlast
    exact incomplete_of_fatal hopen hitem houtcome hfatal hresult

/-- If the last bracket of the document is missing, its entry is added, and then a fault is
found. -/
theorem outcomes_writeDocument_take_lastBracket :
    let e : Entry := ⟨"cn=<a>", [⟨"cn", [[0x3C]], by decide, by decide⟩], by decide, by decide⟩
    ∃ w feed fault, Writer.writeDocument .dsml ⟨Sink.boundless, (), [], 0⟩ [e] = (.ok (), w) ∧
      open? { bytes := w.output.written.take 277 } = .ok feed ∧
      feed.items.map (·.outcome) = [.ok (.add e), .error (.parse fault)] ∧
      fault.mayContinue = false := by
  intro e
  obtain ⟨hcut, hopening, htag⟩ : 277 + 2 ≤ (Format.dsml.render [e]).length ∧
      opening <+: (Format.dsml.render [e]).take 277 ∧
      throughEntry [e] 0 <+: (Format.dsml.render [e]).take 277 := by
    decide +kernel
  obtain ⟨w, hwrite, hwritten, ⟨fault, hfatal, hread⟩, -⟩ := outcomes_writeDocument_take
    ⟨Sink.boundless, (), [], 0⟩ Sink.reliable_boundless rfl [e] hcut none
  simp only [hwritten] at hread
  obtain ⟨hunopened, -⟩ | ⟨-, feed, k, hopen, hk, htold, houtcomes⟩ := hread
  · exact absurd hopening hunopened
  · have hone : k = 1 := Nat.le_antisymm hk ((htold 0 (by decide)).2 htag)
    rw [hone] at houtcomes
    exact ⟨w, feed, fault, hwrite, hwritten ▸ hopen, houtcomes, hfatal⟩

end DirectoryExchange.Dsml

import DirectoryExchange.Proofs.Dsml.Walk
import DirectoryExchange.Proofs.Reader
import DirectoryExchange.Proofs.Xml.Markup

/-!
# Reading DSML comes on

Every piece of a document ends behind the one before it, and an entry gives its item with the tag
that ends it, so no item lies where the one before it was; only a document that cannot be read
further gives an item where it leaves off (`advances_open?`).
-/

namespace DirectoryExchange

namespace Xml

/-- Behind an opening bracket there is no character data yet. -/
lemma lexBracket_ne {b x : UInt8} {sofar : Bytes} : (lexBracket b).2 ≠ .text (x :: sofar) := by
  unfold lexBracket
  repeat' split
  all_goals simp

lemma lexDeclaration_ne {b x : UInt8} {sofar : Bytes} : lexDeclaration b ≠ .text (x :: sofar) := by
  unfold lexDeclaration
  repeat' split
  all_goals simp

/-- No piece ends with an octet of character data. -/
lemma lexStep_of_text {p : Position} {b x : UInt8} {sofar : Bytes}
    (h : (lexStep p b).2 = .text (x :: sofar)) : (lexStep p b).1 = none := by
  fun_cases lexStep p b <;> simp_all [lexBracket_ne, lexDeclaration_ne, lexStep]

/-- Behind something that is no markup there are no pieces. -/
lemma lexFrom_broken (taken : Nat) (v : Bytes) : lexFrom taken .broken v = ([], .broken) := by
  induction v generalizing taken with
  | nil => rfl
  | cons b rest ih => simp only [lexFrom, lexStep, ih]

/-- What is no markup begins within the octets. -/
lemma brokenAt_le (taken : Nat) (p : Position) (v : Bytes) :
    brokenAt taken p v ≤ taken + v.length := by
  induction v generalizing taken p with
  | nil => exact Nat.le_refl _
  | cons b rest ih =>
    rw [brokenAt, List.length_cons]
    split
    · exact Nat.le_add_right _ _
    · have hrest := ih (taken + 1) (lexStep p b).2
      omega

/-- Pieces end one behind the other, and none behind the octets that are no markup. -/
lemma ascends_lexFrom (taken : Nat) (p : Position) (v : Bytes) :
    Ascends (brokenAt taken p v) taken ((lexFrom taken p v).1.map (·.position)) := by
  induction v generalizing taken p with
  | nil => exact Nat.le_refl _
  | cons b rest ih =>
    rw [brokenAt]
    split
    · next hbroken =>
      rw [hbroken, lexFrom_broken]
      exact Nat.le_refl taken
    · have hrest := ih (taken + 1) (lexStep p b).2
      rw [lexFrom]
      rcases hstep : lexStep p b with ⟨piece, next⟩
      rw [hstep] at hrest
      cases piece with
      | none => exact hrest.of_le (Nat.le_succ taken)
      | some m => exact ⟨Nat.lt_succ_self taken, hrest⟩

/-- All pieces end within the octets from which they are cut. -/
lemma ascends_lexFrom_length (v : Bytes) :
    Ascends v.length 0 ((lexFrom 0 (.text []) v).1.map (·.position)) := by
  refine (ascends_lexFrom 0 (.text []) v).mono ?_
  have hle := brokenAt_le 0 (.text []) v
  rwa [Nat.zero_add] at hle

/-- If octets lead into character data, all pieces have ended before the last one. -/
lemma exists_lexFrom_eq {taken : Nat} {p : Position} {v : Bytes} (hv : v ≠ []) {x : UInt8}
    {sofar : Bytes} (h : (lexFrom taken p v).2 = .text (x :: sofar)) :
    ∃ front b, v = front ++ [b] ∧ (lexFrom taken p v).1 = (lexFrom taken p front).1 := by
  obtain ⟨front, b, rfl⟩ : ∃ front b, v = front ++ [b] :=
    ⟨v.dropLast, v.getLast hv, (List.dropLast_concat_getLast hv).symm⟩
  refine ⟨front, b, rfl, ?_⟩
  rw [lexFrom_append] at h ⊢
  simp only [lexFrom] at h ⊢
  have hnone : (lexStep (lexFrom taken p front).2 b).1 = none := by
    have htext : (lexStep (lexFrom taken p front).2 b).2 = .text (x :: sofar) := by
      rw [← h]
      split <;> rfl
    exact lexStep_of_text htext
  rw [hnone, List.append_nil]

/-- Character data at the end of a document ends behind all other pieces. -/
lemma ascends_lex (document : Bytes) (ends : Bool) :
    Ascends document.length 0 ((lex document ends).1.map (·.position)) := by
  have hall := ascends_lexFrom_length document
  rcases hlex : lexFrom 0 (.text []) document with ⟨lexemes, final⟩
  rw [hlex] at hall
  simp only [lex, hlex]
  split
  · exact hall
  · exact hall
  · next sofar hne =>
    obtain ⟨x, more, rfl⟩ := List.exists_cons_of_ne_nil hne
    have hdocument : document ≠ [] := by
      rintro rfl
      cases hlex
    obtain ⟨front, b, rfl, hfront⟩ := exists_lexFrom_eq hdocument (congrArg Prod.snd hlex)
    have hlexemes : lexemes = (lexFrom 0 (.text []) front).1 := by
      rw [← hfront, hlex]
    have hpieces := ascends_lexFrom_length front
    rw [← hlexemes] at hpieces
    rw [List.map_append]
    refine hpieces.concat ?_
    rw [List.length_append, List.length_singleton]
    exact Nat.lt_succ_self _
  · exact hall

/-- Nodes end where the pieces end from which they are read. -/
lemma positions_nodesWithin (elements : List OpenElement) (lexemes : List Lexeme) :
    (nodesWithin elements lexemes).1.map (·.position) <+: lexemes.map (·.position) := by
  induction lexemes generalizing elements with
  | nil => exact List.nil_prefix
  | cons lexeme rest ih =>
    rw [nodesWithin]
    split
    · next node inner _ => exact List.cons_prefix_cons.2 ⟨rfl, ih inner⟩
    · exact List.nil_prefix

/-- Nodes that are not well-formed are fewer than the pieces. -/
lemma length_nodesWithin (elements : List OpenElement) (lexemes : List Lexeme) :
    (nodesWithin elements lexemes).1.length < lexemes.length ∨
      (nodesWithin elements lexemes).2 = true := by
  induction lexemes generalizing elements with
  | nil => exact .inr rfl
  | cons lexeme rest ih =>
    rw [nodesWithin]
    split
    · next node inner _ =>
      rw [List.length_cons, List.length_cons]
      exact (ih inner).imp Nat.succ_lt_succ id
    · exact .inl (Nat.succ_pos _)

/-- The pieces of a document that is not whole are those cut from its octets. -/
lemma lex_of_not_complete {document : Bytes} {ends : Bool} (h : (lex document ends).2 = false) :
    (lex document ends).1 = (lexFrom 0 (.text []) document).1 := by
  rcases hlex : lexFrom 0 (.text []) document with ⟨lexemes, final⟩
  simp only [lex, hlex] at h ⊢
  split at h <;> first | rfl | cases h

/-- The nodes of a document that is not whole end in front of its fault. -/
lemma ascends_faultPlace (octets : Bytes) (ends : Bool)
    (h : ((nodesWithin [] (lex octets ends).1).2 && (lex octets ends).2) = false) :
    Ascends (faultPlace octets (lex octets ends).1 (nodesWithin [] (lex octets ends).1).1) 0
      ((nodesWithin [] (lex octets ends).1).1.map (·.position)) := by
  have hprefix := positions_nodesWithin [] (lex octets ends).1
  rw [faultPlace]
  -- the fault is at the piece behind the last node, or behind all pieces
  split
  · next lexeme hlexeme =>
    refine ((ascends_lex octets ends).of_isPrefix ?_).of_concat
    have hnext := congrArg (Option.map Lexeme.position) hlexeme
    rw [← List.getElem?_map, Option.map_some] at hnext
    have htake := List.take_prefix ((nodesWithin [] (lex octets ends).1).1.length + 1)
      ((lex octets ends).1.map (·.position))
    rw [List.take_add_one, hnext, Option.toList_some] at htake
    rwa [List.prefix_iff_eq_take.1 hprefix, List.length_map]
  · next hnone =>
    have hlength := List.getElem?_eq_none_iff.1 hnone
    have hread : (nodesWithin [] (lex octets ends).1).2 = true :=
      (length_nodesWithin [] (lex octets ends).1).resolve_left (Nat.not_lt.2 hlength)
    rw [hread, Bool.true_and] at h
    rw [lex_of_not_complete h] at hprefix ⊢
    exact (ascends_lexFrom 0 (.text []) octets).of_isPrefix hprefix

/-- A fault lies within the document. -/
lemma faultPlace_le (octets : Bytes) (ends : Bool) (nodes : List PlacedNode) :
    faultPlace octets (lex octets ends).1 nodes ≤ octets.length := by
  rw [faultPlace]
  split
  · next lexeme hlexeme =>
    have hmem := List.mem_map_of_mem (f := (·.position)) (List.mem_of_getElem? hlexeme)
    exact ((ascends_lex octets ends).lt_of_mem hmem).2
  · exact Nat.zero_add octets.length ▸ brokenAt_le 0 (.text []) octets

/-- Nodes end one behind the other, and none behind what is taken of the document. -/
lemma ascends_ofSource (source : Source) :
    Ascends (Document.ofSource source).extent 0
      ((Document.ofSource source).nodes.map (·.position)) := by
  simp only [Document.ofSource]
  split
  · exact (ascends_lex _ _).of_isPrefix (positions_nodesWithin [] _)
  · next hwhole => exact ascends_faultPlace _ _ (eq_false_of_ne_true hwhole)

/-- What is taken of the document stands behind the byte order mark. -/
lemma extent_ofSource (source : Source) :
    (Document.ofSource source).extent + (Document.ofSource source).start ≤
      source.bytes.length := by
  have hextent : (Document.ofSource source).extent ≤
      (source.bytes.drop (markLength source)).length := by
    simp only [Document.ofSource]
    split
    · exact Nat.le_refl _
    · exact faultPlace_le _ _ _
  have hmark := markLength_le source
  rw [List.length_drop] at hextent
  change _ + markLength source ≤ _
  omega

end Xml

namespace Dsml

/-- What is given is the outcome of an entry. -/
lemma exists_outcome_of_step {s next : State} {node : Xml.Node}
    {outcome : Except ParseError ChangeRecord} (h : s.step node = .give outcome next) :
    ∃ (e : OpenEntry) (location : Location), outcome = e.outcome location := by
  have hgive : ∀ {t : State} {e : OpenEntry}, t.give e = .give outcome next →
      ∃ (e : OpenEntry) (location : Location), outcome = e.outcome location := by
    intro t e h
    cases h
    exact ⟨e, _, rfl⟩
  unfold State.step at h
  split at h
  · cases node with
    | opened tag empty =>
      simp only [State.enter] at h
      repeat' split at h
      all_goals first | exact hgive h | cases h
    | closed =>
      simp only [State.leave] at h
      repeat' split at h
      all_goals first | exact hgive h | cases h
    | text value => cases h
  · split at h <;> cases h

/-- A fault of an entry does not keep the next one from being read. -/
lemma mayContinue_of_outcome {entry : OpenEntry} {location : Location} {e : ParseError}
    (h : entry.outcome location = .error e) : e.mayContinue = true := by
  rw [OpenEntry.outcome] at h
  split at h
  · cases h
    rfl
  · split at h
    · cases h
    · cases h
      rfl

/-- What the nodes give comes on as they do. -/
lemma advances_feedNodes (whole : Bool) {extent p : Nat} {nodes : List Xml.PlacedNode}
    (h : Ascends extent p (nodes.map (·.position))) (s : State) :
    Advances extent p (feedNodes whole extent s nodes).items
      (feedNodes whole extent s nodes).endPosition := by
  induction nodes generalizing p s with
  | nil =>
    have hp : p ≤ extent := h
    rw [feedNodes, endFeed]
    split
    · exact .stopped rfl hp (Nat.le_refl _)
    · split
      · exact .ended hp (Nat.le_refl _)
      · exact .stopped rfl hp (Nat.le_refl _)
  | cons placed nodes ih =>
    obtain ⟨hplaced, hnodes⟩ : p < placed.position ∧ _ := h
    rw [feedNodes]
    split
    · exact ih (hnodes.of_le (Nat.le_of_lt hplaced)) _
    · next outcome next hstep =>
      obtain ⟨e, location, rfl⟩ := exists_outcome_of_step hstep
      refine .given ?_ hplaced (ih hnodes next)
      cases houtcome : e.outcome location with
      | ok record => rfl
      | error fault =>
        change (!fault.mayContinue) = false
        rw [mayContinue_of_outcome houtcome, Bool.not_true]
    · exact .stopped rfl (Nat.le_of_lt hplaced) hnodes.le

/-- What is read behind the root element comes on from there. -/
lemma advances_openNodes {whole : Bool} {extent p : Nat} {nodes : List Xml.PlacedNode}
    (h : Ascends extent p (nodes.map (·.position))) {f : Feed}
    (hopen : openNodes whole extent nodes = .ok f) :
    Advances extent f.startPosition f.items f.endPosition := by
  induction nodes generalizing p with
  | nil =>
    rw [openNodes] at hopen
    split at hopen <;> cases hopen
  | cons placed nodes ih =>
    obtain ⟨-, hnodes⟩ := h
    rw [openNodes] at hopen
    split at hopen
    · split at hopen
      · split at hopen
        · cases hopen
          exact .ended (Nat.le_refl _) hnodes.le
        · cases hopen
          exact advances_feedNodes whole hnodes {}
      · split at hopen <;> cases hopen
    · exact ih hnodes hopen

/-- What is read of a document comes on, whatever it is and wherever its stream fails. -/
theorem advances_open? {source : Source} {f : Feed} (h : open? source = .ok f) :
    Advances source.bytes.length f.startPosition f.items f.endPosition := by
  refine Advances.mono ?_ (Xml.extent_ofSource source)
  rw [open?] at h
  cases hopen : openNodes (Xml.Document.ofSource source).whole (Xml.Document.ofSource source).extent
      (Xml.Document.ofSource source).nodes with
  | error e =>
    simp only [hopen] at h
    cases h
  | ok opened =>
    simp only [hopen] at h
    cases h
    exact (advances_openNodes (Xml.ascends_ofSource source) hopen).behind _

end Dsml

end DirectoryExchange

import DirectoryExchange.Proofs.Text.Blank
import DirectoryExchange.Proofs.Xml.Markup
import DirectoryExchange.Proofs.Xml.Node

/-!
# Tags that are start and end in one

A tag that closes itself may be written as a start tag and an end tag, unless its name cannot stand
in an end tag or another slash is left at its end (`emptiable_of_selfClosed`).  What is in front of
it and behind it is read all the same, with two nodes in the place of the one of the tag, if the
document is read that far (`ofSource_emptied`).
-/

namespace DirectoryExchange.Xml

/-! ### The tags -/

/-- The tag with that content that closes itself. -/
def selfClosed (content : Bytes) : Bytes := openBracket :: content ++ [slash, closeBracket]

/-- The start tag with that content, and the end tag of its name. -/
def startAndEnd (content : Bytes) : Bytes :=
  (openBracket :: content ++ [closeBracket]) ++
    (openBracket :: slash :: (splitName content).1 ++ [closeBracket])

/-- Whether an element with that content in its tag can be written in both ways. -/
structure Emptiable (content : Bytes) : Prop where
  /-- With a slash at its end it is a tag that closes itself. -/
  selfClosed : Lexes (.text []) (selfClosed content) [.startTag content true] (.text [])
  /-- Without, it is a start tag, and its name makes an end tag. -/
  startAndEnd : Lexes (.text []) (startAndEnd content)
    [.startTag content false, .endTag (splitName content).1] (.text [])

/-- Where in a document octets begin does not matter to what they give. -/
lemma lexFrom_markups (taken taken' : Nat) (p : Position) (v : Bytes) :
    (lexFrom taken p v).1.map (·.markup) = (lexFrom taken' p v).1.map (·.markup) ∧
      (lexFrom taken p v).2 = (lexFrom taken' p v).2 := by
  induction v generalizing taken taken' p with
  | nil => exact ⟨rfl, rfl⟩
  | cons b v ih =>
    obtain ⟨piece, next, hstep⟩ : ∃ piece next, lexStep p b = (piece, next) := ⟨_, _, rfl⟩
    obtain ⟨hmarkups, hfinal⟩ := ih (taken + 1) (taken' + 1) next
    simp only [lexFrom, hstep]
    cases piece with
    | none => exact ⟨hmarkups, hfinal⟩
    | some markup => exact ⟨congrArg (markup :: ·) hmarkups, hfinal⟩

/-- What octets lead to is told by the lexing from where nothing has been taken. -/
lemma lexes_iff {p q : Position} {v : Bytes} {pieces : List Markup} :
    Lexes p v pieces q ↔
      (lexFrom 0 p v).1.map (·.markup) = pieces ∧ (lexFrom 0 p v).2 = q := by
  refine ⟨fun h => h 0, fun h taken => ?_⟩
  obtain ⟨hmarkups, hfinal⟩ := lexFrom_markups taken 0 p v
  rw [hmarkups, hfinal]
  exact h

instance (p : Position) (v : Bytes) (pieces : List Markup) (q : Position) :
    Decidable (Lexes p v pieces q) :=
  decidable_of_iff _ lexes_iff.symm

/-! ### What makes such a tag -/

/-- What `n` octets of a document may lead to: a tag is shorter than they are, and what it is
quoted with is a quotation mark. -/
def Position.Within (n : Nat) : Position → Prop
  | .bracket => 0 < n
  | .startTag quote sofar => sofar.length < n ∧ ∀ q ∈ quote, isQuote q = true
  | _ => True

/-- A tag waits for a quotation mark at most. -/
lemma quote_of_lexTag {quote quote' : Option UInt8} {b : UInt8} (h : lexTag quote b = some quote')
    (hquote : ∀ q ∈ quote, isQuote q = true) : ∀ q ∈ quote', isQuote q = true := by
  intro q hq
  cases quote with
  | some old =>
    obtain rfl := Option.some.inj h
    split at hq
    · cases hq
    · exact hquote q hq
  | none =>
    rw [lexTag] at h
    split_ifs at h with hover hmark
    all_goals obtain rfl := Option.some.inj h
    · exact Option.some.inj hq ▸ hmark
    · cases hq

/-- A step keeps at most one octet more than before. -/
lemma within_lexStep {n : Nat} {p : Position} (h : p.Within n) (b : UInt8) :
    (lexStep p b).2.Within (n + 1) := by
  cases p with
  | text sofar =>
    rw [lexStep]
    split
    · exact Nat.succ_pos n
    · trivial
  | bracket =>
    rw [lexStep, lexBracket]
    split_ifs with hdeclaration hend hinstruction hempty hmark
    · trivial
    · trivial
    · trivial
    · trivial
    · exact ⟨Nat.succ_lt_succ h, fun q hq => Option.some.inj hq ▸ hmark⟩
    · exact ⟨Nat.succ_lt_succ h, fun q hq => absurd hq (Option.not_mem_none q)⟩
  | startTag quote sofar =>
    rw [lexStep]
    split
    · next quote' htag => exact ⟨Nat.succ_lt_succ h.1, quote_of_lexTag htag h.2⟩
    · trivial
  | _ =>
    simp only [lexStep, lexDeclaration]
    repeat' split
    all_goals trivial

/-- A tag that closes itself ends behind its slash. -/
lemma position_of_selfClosing {p : Position} {b : UInt8} {content : Bytes}
    (h : (lexStep p b).1 = some (.startTag content true)) :
    p = .startTag none (slash :: content.reverse) := by
  cases p with
  | startTag quote sofar =>
    have hover : lexTag quote b = none ∧ tagOf sofar = .startTag content true := by
      rw [lexStep] at h
      split at h
      · cases h
      · next hover => exact ⟨hover, Option.some.inj h⟩
    obtain ⟨hquote, htag⟩ := hover
    cases quote with
    | some q => cases hquote
    | none =>
      unfold tagOf at htag
      split at htag
      · split at htag <;> cases htag
        next hslash => rw [hslash, List.reverse_reverse]
      · cases htag
  | bracket =>
    rw [lexStep, lexBracket] at h
    split_ifs at h
    cases h
  | _ =>
    simp only [lexStep] at h
    repeat' split at h
    all_goals cases h

/-- What octets lead to is within all that have been taken, and a tag that closes itself is shorter
than they are by its marks. -/
lemma within_lexFrom {n : Nat} {p : Position} (h : p.Within n) (taken : Nat) (v : Bytes) :
    (lexFrom taken p v).2.Within (n + v.length) ∧
      ∀ lexeme ∈ (lexFrom taken p v).1, ∀ content, lexeme.markup = .startTag content true →
        content.length + 3 ≤ n + v.length := by
  induction v generalizing n taken p with
  | nil => exact ⟨h, fun lexeme hmem => absurd hmem List.not_mem_nil⟩
  | cons b v ih =>
    obtain ⟨piece, next, hstep⟩ : ∃ piece next, lexStep p b = (piece, next) := ⟨_, _, rfl⟩
    have hnext := within_lexStep h b
    rw [hstep] at hnext
    obtain ⟨hfinal, hlexemes⟩ := ih hnext (taken + 1)
    have hlength : n + 1 + v.length = n + (b :: v).length := by
      rw [List.length_cons]
      omega
    rw [hlength] at hfinal hlexemes
    simp only [lexFrom, hstep]
    cases piece with
    | none => exact ⟨hfinal, hlexemes⟩
    | some markup =>
      refine ⟨hfinal, fun lexeme hmem content hcontent => ?_⟩
      rcases List.mem_cons.1 hmem with rfl | hmem
      · obtain rfl : p = .startTag none (slash :: content.reverse) :=
          position_of_selfClosing (by rw [hstep, ← hcontent])
        have hshort := h.1
        rw [List.length_cons, List.length_reverse] at hshort
        rw [List.length_cons]
        omega
      · exact hlexemes lexeme hmem content hcontent

/-- A slash that is kept in a tag was met in the tag. -/
lemma position_of_slash {n : Nat} {p : Position} (hp : p.Within n) {sofar : Bytes}
    {piece : Option Markup} (h : lexStep p slash = (piece, .startTag none (slash :: sofar))) :
    p = .startTag none sofar := by
  cases p with
  | startTag quote held =>
    rw [lexStep] at h
    split at h
    · next quote' htag =>
      cases h
      cases quote with
      | none => rfl
      | some q =>
        have hquote := hp.2 q rfl
        rw [lexTag] at htag
        split at htag
        · next heq =>
          rw [← heq] at hquote
          exact absurd hquote (by decide)
        · cases htag
    · cases h
  | bracket => cases h
  | _ =>
    simp only [lexStep, lexDeclaration] at h
    repeat' split at h
    all_goals cases h

/-- In front of its last two marks a tag that closes itself has been read as a tag. -/
lemma lexes_tag_of_selfClosed {content : Bytes}
    (h : Lexes (.text []) (selfClosed content) [.startTag content true] (.text [])) :
    Lexes (.text []) (openBracket :: content) [] (.startTag none content.reverse) := by
  have hbegin : (Position.text []).Within 0 := trivial
  obtain ⟨pieces, p, hp⟩ : ∃ pieces p, Lexes (.text []) (openBracket :: content) pieces p :=
    ⟨_, _, lexes_iff.2 ⟨rfl, rfl⟩⟩
  obtain ⟨piece, q, hq⟩ : ∃ piece q, lexStep p slash = (piece, q) := ⟨_, _, rfl⟩
  obtain ⟨last, r, hr⟩ : ∃ last r, lexStep q closeBracket = (last, r) := ⟨_, _, rfl⟩
  have hslash : Lexes (.text []) (openBracket :: content ++ [slash]) (pieces ++ piece.toList) q :=
    hp.append (.single hq)
  have hall := hslash.append (.single hr)
  rw [List.append_assoc, List.singleton_append] at hall
  have hsame : pieces ++ piece.toList ++ last.toList = [.startTag content true] :=
    (hall 0).1.symm.trans (h 0).1
  -- a tag that ends before the last bracket would have a shorter content
  have hnone : pieces ++ piece.toList = [] := by
    rcases List.append_eq_singleton_iff.1 hsame with ⟨hnone, -⟩ | ⟨hsome, -⟩
    · exact hnone
    · rw [← (hslash 0).1] at hsome
      obtain ⟨lexeme, hmem, hmarkup⟩ := List.mem_map.1
        (hsome ▸ List.mem_singleton_self _ : Markup.startTag content true ∈ _)
      have hshort := (within_lexFrom hbegin 0 _).2 lexeme hmem content hmarkup
      rw [List.length_append, List.length_cons, List.length_singleton] at hshort
      omega
  rw [hnone, List.nil_append] at hsame
  obtain rfl := Option.toList_eq_singleton_iff.1 hsame
  obtain ⟨rfl, hpiece⟩ := List.append_eq_nil_iff.1 hnone
  obtain rfl : q = .startTag none (slash :: content.reverse) :=
    position_of_selfClosing (congrArg Prod.fst hr)
  have hwithin := (within_lexFrom hbegin 0 (openBracket :: content)).1
  rw [(hp 0).2] at hwithin
  rwa [position_of_slash hwithin hq] at hp

/-- A tag that closes itself may be written as a start tag and an end tag, if there is one slash at
its end and its name can stand in an end tag. -/
theorem emptiable_of_selfClosed {content : Bytes}
    (h : Lexes (.text []) (selfClosed content) [.startTag content true] (.text []))
    (hlast : content.getLast? ≠ some slash) (hname : ∀ b ∈ (splitName content).1, isBare b = true) :
    Emptiable content := by
  have hend : Lexes (.startTag none content.reverse) [closeBracket] [.startTag content false]
      (.text []) := by
    have hstep : lexStep (.startTag none content.reverse) closeBracket =
        (some (.startTag content false), .text []) := by
      rw [← tagOf_of_last hlast]
      rfl
    exact Lexes.single hstep
  exact ⟨h, ((lexes_tag_of_selfClosed h).append hend).append (lexes_endTag hname [])⟩

/-! ### What is behind a tag -/

/-- A tag ends the character data in front of it. -/
lemma Lexes.behind_data {v : Bytes} {pieces : List Markup} {q : Position}
    (h : Lexes (.text []) (openBracket :: v) pieces q) (sofar : Bytes) :
    Lexes (.text sofar) (openBracket :: v) (dataOf sofar ++ pieces) q := by
  have htag : Lexes .bracket v pieces q := by
    intro taken
    obtain ⟨hmarkups, hfinal⟩ := lexFrom_markups taken 1 .bracket v
    rw [hmarkups, hfinal]
    exact h 0
  exact (lexes_openBracket sofar).append htag

/-- The piece that is left at the end of a document, and whether the document is whole. -/
def Position.rest : Position → List Markup × Bool
  | .text sofar => (dataOf sofar, true)
  | _ => ([], false)

/-- The pieces of a document are those that are over and what is left. -/
lemma lex_of_lexes_any {document : Bytes} {pieces : List Markup} {p : Position}
    (h : Lexes (.text []) document pieces p) :
    (lex document true).1.map (·.markup) = pieces ++ p.rest.1 ∧
      (lex document true).2 = p.rest.2 := by
  cases p with
  | text sofar => exact lex_of_lexes h
  | _ =>
    obtain ⟨hpieces, hfinal⟩ := h 0
    simp [lex, hfinal, hpieces, Position.rest]

/-- What is behind a part that ends with markup is lexed on its own. -/
lemma lex_append {v w : Bytes} {pieces : List Markup} (h : Lexes (.text []) v pieces (.text [])) :
    (lex (v ++ w) true).1.map (·.markup) = pieces ++ (lex w true).1.map (·.markup) ∧
      (lex (v ++ w) true).2 = (lex w true).2 := by
  have hw : Lexes (.text []) w _ _ := lexes_iff.2 ⟨rfl, rfl⟩
  obtain ⟨hmarkups, hcomplete⟩ := lex_of_lexes_any hw
  obtain ⟨hmarkups', hcomplete'⟩ := lex_of_lexes_any (h.append hw)
  rw [hmarkups, hmarkups', hcomplete, hcomplete', List.append_assoc]
  exact ⟨rfl, rfl⟩

/-- The pieces of a document. -/
def piecesOf (document : Bytes) : List Markup := (lex document true).1.map (·.markup)

/-- The pieces of a document with tags in it are those in front of them, those of the tags and those
behind them. -/
lemma piecesOf_tags {prolog tag sofar : Bytes} {tags : List Markup}
    (hplace : (lexFrom 0 (.text []) prolog).2 = .text sofar) (hopen : tag.head? = some openBracket)
    (htags : Lexes (.text []) tag tags (.text [])) (behind : Bytes) :
    piecesOf (prolog ++ tag ++ behind) = piecesOf prolog ++ (tags ++ piecesOf behind) ∧
      (lex (prolog ++ tag ++ behind) true).2 = (lex behind true).2 := by
  have hprolog : Lexes (.text []) prolog _ (.text sofar) := lexes_iff.2 ⟨rfl, hplace⟩
  obtain ⟨v, rfl⟩ := List.head?_eq_some_iff.1 hopen
  obtain ⟨hpieces, hcomplete⟩ := lex_append (w := behind)
    (hprolog.append (htags.behind_data sofar))
  refine ⟨?_, hcomplete⟩
  rw [piecesOf, piecesOf, piecesOf, (lex_of_lexes hprolog).1, hpieces]
  simp only [List.append_assoc]

/-! ### The nodes of pieces -/

/-- The nodes of pieces inside the elements, wherever they stand, and whether all are
well-formed. -/
def nodesOf (elements : List OpenElement) (pieces : List Markup) : List Node × Bool :=
  let (placed, whole) := nodesWithin elements (pieces.map fun piece => ⟨piece, 0⟩)
  (placed.map (·.node), whole)

/-- Whether the node is character data. -/
def Node.isText : Node → Bool
  | .text _ => true
  | _ => false

@[simp] lemma isText_opened (tag : Tag) (empty : Bool) : (Node.opened tag empty).isText = false :=
  rfl

@[simp] lemma isText_closed : Node.closed.isText = false := rfl

section

variable {elements : List OpenElement} {piece : Markup} {pieces : List Markup}

/-- A piece that is read is the first node. -/
lemma nodesOf_cons_of_some {node : Node} {inner : List OpenElement}
    (h : nodeOf? elements piece = some (node, inner)) :
    nodesOf elements (piece :: pieces) =
      (node :: (nodesOf inner pieces).1, (nodesOf inner pieces).2) := by
  simp only [nodesOf, List.map_cons, nodesWithin, h]

lemma nodesOf_cons_of_none (h : nodeOf? elements piece = none) :
    nodesOf elements (piece :: pieces) = ([], false) := by
  simp only [nodesOf, List.map_cons, nodesWithin, h, List.map_nil]

/-- Which nodes are read does not depend on where the pieces end. -/
lemma nodesOf_markups (elements : List OpenElement) (lexemes : List Lexeme) :
    (nodesWithin elements lexemes).1.map (·.node) = (nodesOf elements (lexemes.map (·.markup))).1 ∧
      (nodesWithin elements lexemes).2 = (nodesOf elements (lexemes.map (·.markup))).2 := by
  induction lexemes generalizing elements with
  | nil => exact ⟨rfl, rfl⟩
  | cons lexeme lexemes ih =>
    rw [List.map_cons]
    cases hnode : nodeOf? elements lexeme.markup with
    | none =>
      rw [nodesOf_cons_of_none hnode]
      simp only [nodesWithin, hnode, List.map_nil, and_self]
    | some read =>
      obtain ⟨node, inner⟩ := read
      obtain ⟨hnodes, hwhole⟩ := ih inner
      rw [nodesOf_cons_of_some hnode]
      simp only [nodesWithin, hnode, List.map_cons, hnodes, hwhole, and_self]

/-- Character data opens no element. -/
lemma inner_of_isText {node : Node} {inner : List OpenElement}
    (h : nodeOf? elements piece = some (node, inner)) (htext : node.isText = true) :
    inner = elements := by
  cases piece with
  | text raw =>
    obtain ⟨text, -, heq⟩ := Option.map_eq_some_iff.1 h
    exact (Prod.mk.inj heq).2.symm
  | literal raw => exact (Prod.mk.inj (Option.some.inj h)).2.symm
  | startTag content selfClosing =>
    obtain ⟨tag, -, heq⟩ := Option.map_eq_some_iff.1 h
    rw [← (Prod.mk.inj heq).1] at htext
    exact absurd htext Bool.false_ne_true
  | endTag content =>
    cases elements with
    | nil => cases h
    | cons element outer =>
      rw [nodeOf?] at h
      split at h
      · rw [← (Prod.mk.inj (Option.some.inj h)).1] at htext
        exact absurd htext Bool.false_ne_true
      · cases h

/-- Pieces behind well-formed ones are read inside the elements that these leave open, and character
data leaves none. -/
lemma nodesOf_append (elements : List OpenElement) (pieces : List Markup) :
    ∃ inner, ((nodesOf elements pieces).1.all Node.isText = true → inner = elements) ∧
      ∀ rest, nodesOf elements (pieces ++ rest) =
        if (nodesOf elements pieces).2 then
          ((nodesOf elements pieces).1 ++ (nodesOf inner rest).1, (nodesOf inner rest).2)
        else ((nodesOf elements pieces).1, false) := by
  induction pieces generalizing elements with
  | nil => exact ⟨elements, fun _ => rfl, fun _ => rfl⟩
  | cons piece pieces ih =>
    cases hnode : nodeOf? elements piece with
    | none =>
      refine ⟨elements, fun _ => rfl, fun rest => ?_⟩
      rw [List.cons_append, nodesOf_cons_of_none hnode, nodesOf_cons_of_none hnode]
      rfl
    | some read =>
      obtain ⟨node, within⟩ := read
      obtain ⟨inner, htexts, hinner⟩ := ih within
      refine ⟨inner, fun h => ?_, fun rest => ?_⟩
      · rw [nodesOf_cons_of_some hnode, List.all_cons, Bool.and_eq_true] at h
        rw [htexts h.2, inner_of_isText hnode h.1]
      · rw [List.cons_append, nodesOf_cons_of_some hnode, nodesOf_cons_of_some hnode, hinner]
        split <;> rfl

/-- Without a tag that opens an element there is nothing but character data. -/
lemma all_isText_of_not_opened
    (h : ∀ tag empty, .opened tag empty ∉ (nodesOf [] pieces).1) :
    (nodesOf [] pieces).1.all Node.isText = true := by
  induction pieces with
  | nil => rfl
  | cons piece pieces ih =>
    cases hnode : nodeOf? [] piece with
    | none => rw [nodesOf_cons_of_none hnode]; rfl
    | some read =>
      obtain ⟨node, inner⟩ := read
      rw [nodesOf_cons_of_some hnode] at h ⊢
      have htext : node.isText = true := by
        cases node with
        | opened tag empty => exact absurd List.mem_cons_self (h tag empty)
        | closed => cases piece <;> simp [nodeOf?] at hnode
        | text value => rfl
      obtain rfl := inner_of_isText hnode htext
      rw [List.all_cons, htext, Bool.true_and]
      exact ih fun tag empty hmem => h tag empty (List.mem_cons_of_mem _ hmem)

/-- The name that is split off a tag has no white space behind it. -/
lemma endName_splitName (content : Bytes) :
    endName (splitName content).1 = (splitName content).1 := by
  have hname : ∀ b ∈ (splitName content).1, isGap b = false := fun b hb => by
    simpa using List.mem_takeWhile_imp hb
  rw [endName]
  split
  · rfl
  · rw [Blank.dropWhile_eq_self fun b hb =>
      hname b (List.mem_reverse.1 (List.mem_of_mem_head? hb)), List.reverse_reverse]

/-- The element of a tag has the name that is split off. -/
lemma readTag?_name {content : Bytes} {tag : Tag} {element : OpenElement}
    (h : readTag? elements content = some (tag, element)) :
    element.name = (splitName content).1 := by
  simp only [readTag?, Option.bind_eq_bind, Option.bind_eq_some_iff] at h
  obtain ⟨raw, -, declared, -, attributes, -, heq⟩ := h
  rw [← (Prod.mk.inj (Option.some.inj heq)).2]

/-- The two ways to write an element that is empty are read alike, but for the nodes of the
element. -/
lemma nodesOf_emptied (elements : List OpenElement) (content : Bytes) (rest : List Markup) :
    (readTag? elements content = none ∧
        nodesOf elements (.startTag content true :: rest) = ([], false) ∧
        nodesOf elements (.startTag content false :: .endTag (splitName content).1 :: rest) =
          ([], false)) ∨
      ∃ tag element, readTag? elements content = some (tag, element) ∧
        nodesOf elements (.startTag content true :: rest) =
          (.opened tag true :: (nodesOf elements rest).1, (nodesOf elements rest).2) ∧
        nodesOf elements (.startTag content false :: .endTag (splitName content).1 :: rest) =
          (.opened tag false :: .closed :: (nodesOf elements rest).1,
            (nodesOf elements rest).2) := by
  cases hread : readTag? elements content with
  | none =>
    have hnone : ∀ selfClosing, nodeOf? elements (.startTag content selfClosing) = none := by
      intro selfClosing
      rw [nodeOf?, hread, Option.map_none]
    exact .inl ⟨rfl, nodesOf_cons_of_none (hnone true), nodesOf_cons_of_none (hnone false)⟩
  | some read =>
    obtain ⟨tag, element⟩ := read
    have hopened : ∀ selfClosing, nodeOf? elements (.startTag content selfClosing) =
        some (.opened tag selfClosing, if selfClosing then elements else element :: elements) := by
      intro selfClosing
      rw [nodeOf?, hread, Option.map_some]
    have hclosed : nodeOf? (element :: elements) (.endTag (splitName content).1) =
        some (.closed, elements) := by
      rw [nodeOf?, endName_splitName, if_pos (readTag?_name hread)]
    refine .inr ⟨tag, element, rfl, nodesOf_cons_of_some (hopened true), ?_⟩
    rw [nodesOf_cons_of_some (hopened false), if_neg Bool.false_ne_true,
      nodesOf_cons_of_some hclosed]

end

/-! ### Documents -/

/-- The nodes of a document whose stream ends are those of its pieces. -/
lemma ofSource_eq (source : Source) (hends : source.failure = none) :
    let octets := source.bytes.drop (markLength source)
    (Document.ofSource source).nodes.map (·.node) = (nodesOf [] (piecesOf octets)).1 ∧
      (Document.ofSource source).whole =
        ((nodesOf [] (piecesOf octets)).2 && (lex octets true).2) := by
  intro octets
  obtain ⟨hnodes, hwhole⟩ := nodesOf_markups [] (lex octets true).1
  simp only [Document.ofSource, hends, Option.isNone_none]
  exact ⟨hnodes, congrArg (· && (lex octets true).2) hwhole⟩

/-- A document with tags in it is read as the pieces in front of them, the tags and the pieces
behind them. -/
lemma ofSource_tags (portion : Option Nat) {before tag sofar : Bytes} {tags : List Markup}
    (hplace : (lexFrom 0 (.text []) (before.drop (markLength { bytes := before, portion }))).2 =
      .text sofar) (hopen : tag.head? = some openBracket)
    (htags : Lexes (.text []) tag tags (.text [])) (behind : Bytes) :
    let document := Document.ofSource { bytes := before ++ tag ++ behind, portion }
    let pieces := piecesOf (before.drop (markLength { bytes := before, portion })) ++
      (tags ++ piecesOf behind)
    document.nodes.map (·.node) = (nodesOf [] pieces).1 ∧
      document.whole = ((nodesOf [] pieces).2 && (lex behind true).2) := by
  intro document pieces
  obtain ⟨hpieces, hcomplete⟩ := piecesOf_tags hplace hopen htags behind
  have hoctets : (before ++ tag ++ behind).drop
      (markLength { bytes := before ++ tag ++ behind, portion }) =
        before.drop (markLength { bytes := before, portion }) ++ tag ++ behind := by
    obtain ⟨v, rfl⟩ := List.head?_eq_some_iff.1 hopen
    rw [List.append_assoc, List.cons_append, markLength_append,
      List.drop_append_of_le_length (markLength_le _), List.append_assoc, List.cons_append]
  obtain ⟨hnodes, hwhole⟩ := ofSource_eq { bytes := before ++ tag ++ behind, portion } rfl
  simp only [hoctets, hpieces, hcomplete] at hnodes hwhole
  exact ⟨hnodes, hwhole⟩

/-- Two documents that differ in the way an element without content is written are read alike up to
the element, and behind it if they are read so far; the elements around it are none if there is only
character data in front of it. -/
theorem ofSource_emptied (portion : Option Nat) {before content sofar : Bytes}
    (hcontent : Emptiable content)
    (hplace : (lexFrom 0 (.text []) (before.drop (markLength { bytes := before, portion }))).2 =
      .text sofar) (behind : Bytes) :
    let front := nodesOf [] (piecesOf (before.drop (markLength { bytes := before, portion })))
    let one := Document.ofSource { bytes := before ++ selfClosed content ++ behind, portion }
    let two := Document.ofSource { bytes := before ++ startAndEnd content ++ behind, portion }
    ∃ elements, (front.1.all Node.isText = true → elements = []) ∧
      (((front.2 = true → readTag? elements content = none) ∧
          one.nodes.map (·.node) = two.nodes.map (·.node) ∧ one.whole = false ∧
          two.whole = false) ∨
        front.2 = true ∧ ∃ tag element, readTag? elements content = some (tag, element) ∧
          one.nodes.map (·.node) =
            front.1 ++ .opened tag true :: (nodesOf elements (piecesOf behind)).1 ∧
          two.nodes.map (·.node) =
            front.1 ++ .opened tag false :: .closed :: (nodesOf elements (piecesOf behind)).1 ∧
          one.whole = ((nodesOf elements (piecesOf behind)).2 && (lex behind true).2) ∧
          two.whole = one.whole) := by
  intro front one two
  obtain ⟨hone, hwholeOne⟩ := ofSource_tags portion hplace rfl hcontent.selfClosed behind
  obtain ⟨htwo, hwholeTwo⟩ := ofSource_tags portion hplace rfl hcontent.startAndEnd behind
  obtain ⟨elements, htexts, happend⟩ := nodesOf_append []
    (piecesOf (before.drop (markLength { bytes := before, portion })))
  rw [happend] at hone hwholeOne htwo hwholeTwo
  refine ⟨elements, htexts, ?_⟩
  -- if the front cannot be read, no tag behind it is
  cases hfront : front.2 with
  | false =>
    rw [if_neg (by rw [hfront]; exact Bool.false_ne_true)] at hone hwholeOne htwo hwholeTwo
    exact .inl ⟨nofun, hone.trans htwo.symm, hwholeOne, hwholeTwo⟩
  | true =>
    rw [if_pos hfront] at hone hwholeOne htwo hwholeTwo
    rcases nodesOf_emptied elements content (piecesOf behind) with
      ⟨hread, honeTag, htwoTags⟩ | ⟨tag, element, hread, honeTag, htwoTags⟩
    · rw [List.singleton_append, honeTag] at hone hwholeOne
      rw [List.cons_append, List.singleton_append, htwoTags] at htwo hwholeTwo
      exact .inl ⟨fun _ => hread, hone.trans htwo.symm, hwholeOne, hwholeTwo⟩
    · rw [List.singleton_append, honeTag] at hone hwholeOne
      rw [List.cons_append, List.singleton_append, htwoTags] at htwo hwholeTwo
      exact .inr ⟨rfl, tag, element, hread, hone, htwo, hwholeOne, hwholeTwo.trans hwholeOne.symm⟩

end DirectoryExchange.Xml

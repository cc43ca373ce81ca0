import DirectoryExchange.Proofs.Dsml.Walk
import DirectoryExchange.Proofs.Xml.Node

/-!
# Documents of tags and texts

A document of the format is written as a list of tags and texts (`Piece`).  Neighbouring texts are
one piece of character data when they are read, so what is read is described with the text that
waits for the next tag (`markups`, `nodes`); a walk does not notice the difference
(`walks_nodes`).
-/

namespace DirectoryExchange.Dsml

open Xml

/-- A part of a document as it is written. -/
inductive Piece where
  /-- The start tag of an element of the format. -/
  | opening (word : String) (attributes : List (String × String))
  /-- The end tag of an element of the format. -/
  | closing (word : String)
  /-- Character data. -/
  | data (text : String)

/-- The word that stands for the namespace of the format. -/
def dsmlWord : Bytes := Utf8.encode "dsml"

/-- The name of an element of the format as it is written. -/
def qualified (word : String) : Bytes := Utf8.encode "dsml:" ++ Utf8.encode word

/-- The piece as it is written. -/
def Piece.octets : Piece → Bytes
  | opening word attributes =>
    openBracket :: tagContent (qualified word) attributes ++ [closeBracket]
  | closing word => openBracket :: slash :: qualified word ++ [closeBracket]
  | data text => Utf8.encode (escape text)

/-- The tag of an element of the format. -/
def tagOf (word : String) (attributes : List (String × String)) : Tag :=
  ⟨some (Utf8.encode namespaceUri), word, attributes⟩

/-- The piece as it is meant. -/
def Piece.node : Piece → Node
  | opening word attributes => .opened (tagOf word attributes) false
  | closing _ => .closed
  | data text => .text (Utf8.encode text)

/-- Whether the tags of the piece are read as such. -/
def Piece.Proper : Piece → Prop
  | opening word attributes =>
    IsWord word ∧ (∀ a ∈ attributes, Key a.1) ∧ (attributes.map (·.1)).Nodup
  | closing word => IsWord word
  | data _ => True

/-- The element that begins with the word; the root element declares the namespace. -/
def elementOf (word : String) : OpenElement :=
  ⟨qualified word, if word = "dsml" then [⟨dsmlWord, Utf8.encode namespaceUri⟩] else []⟩

/-- The words of the elements that are open behind the end tag with the word. -/
def closeElement (word : String) : List String → Option (List String)
  | [] => none
  | innermost :: outer => if innermost = word then some outer else none

/-- The words of the elements that are open behind the pieces, innermost first, if the tags fit:
every element stands within the root element, which occurs once. -/
def nest (words : List String) : List Piece → Option (List String)
  | [] => some words
  | .opening word _ :: rest =>
    if word ≠ "dsml" ∧ "dsml" ∈ words then nest (word :: words) rest else none
  | .closing word :: rest => (closeElement word words).bind fun outer => nest outer rest
  | .data _ :: rest => nest words rest

/-- What two parts leave open is what the second leaves open behind the first. -/
lemma nest_append (words : List String) (pieces more : List Piece) :
    nest words (pieces ++ more) = (nest words pieces).bind fun words => nest words more := by
  induction pieces generalizing words with
  | nil => rfl
  | cons piece pieces ih =>
    cases piece with
    | opening word attributes =>
      rw [List.cons_append, nest, nest]
      split
      · exact ih _
      · rfl
    | closing word =>
      rw [List.cons_append, nest, nest, Option.bind_assoc]
      exact congrArg _ (funext ih)
    | data text => exact ih _

/-- If the tags of two parts fit, then those of each part do. -/
lemma exists_nest_of_append {words final : List String} {pieces more : List Piece}
    (h : nest words (pieces ++ more) = some final) :
    ∃ inner, nest words pieces = some inner ∧ nest inner more = some final := by
  rwa [nest_append, Option.bind_eq_some_iff] at h

/-! ### Texts between tags -/

/-- The markup of the text that stands in front of a tag. -/
def dataMarkup (text : String) : List Markup :=
  if text = "" then [] else [.text (Utf8.encode (escape text))]

/-- The node of the text that stands in front of a tag. -/
def dataNodes (text : String) : List Node := if text = "" then [] else [.text (Utf8.encode text)]

/-- The markup of the pieces behind a text. -/
def markups (text : String) : List Piece → List Markup
  | [] => dataMarkup text
  | .opening word attributes :: rest =>
    dataMarkup text ++ .startTag (tagContent (qualified word) attributes) false :: markups "" rest
  | .closing word :: rest => dataMarkup text ++ .endTag (qualified word) :: markups "" rest
  | .data more :: rest => markups (text ++ more) rest

/-- The nodes of the pieces behind a text. -/
def nodes (text : String) : List Piece → List Node
  | [] => dataNodes text
  | .opening word attributes :: rest =>
    dataNodes text ++ .opened (tagOf word attributes) false :: nodes "" rest
  | .closing _ :: rest => dataNodes text ++ .closed :: nodes "" rest
  | .data more :: rest => nodes (text ++ more) rest

/-- An end tag behind the pieces is a piece of its own. -/
lemma markups_concat_closing (text : String) (pieces : List Piece) (word : String) :
    markups text (pieces ++ [.closing word]) =
      markups text pieces ++ [.endTag (qualified word)] := by
  induction pieces generalizing text with
  | nil => rfl
  | cons piece pieces ih => cases piece <;> simp [markups, ih]

/-- An end tag behind the pieces is a node of its own. -/
lemma nodes_concat_closing (text : String) (pieces : List Piece) (word : String) :
    nodes text (pieces ++ [.closing word]) = nodes text pieces ++ [.closed] := by
  induction pieces generalizing text with
  | nil => rfl
  | cons piece pieces ih => cases piece <;> simp [nodes, ih]

/-- An escaped text is one piece of character data, or none if it is empty. -/
lemma dataOf_escape (text : String) :
    dataOf (Utf8.encode (escape text)).reverse = dataMarkup text := by
  unfold dataOf dataMarkup
  simp only [List.reverse_eq_nil_iff, Utf8.encode_eq_nil_iff, escape_eq_empty_iff,
    List.reverse_reverse]

lemma qualified_ne (word : String) : qualified word ≠ [] := by simp [qualified]

/-- A qualified name is made of octets that names are made of. -/
lemma isNameOctet_qualified {word : String} (h : IsWord word) :
    ∀ b ∈ qualified word, isNameOctet b = true := by
  have hdsml : IsWord "dsml:" := by decide
  intro b hb
  rcases List.mem_append.1 hb with hb | hb
  · exact hdsml.octets b hb
  · exact h.octets b hb

/-- The octets of pieces are lexed as their markup. -/
theorem lexes_pieces {pieces : List Piece} (h : ∀ p ∈ pieces, p.Proper) (text : String) :
    ∃ ms final, Lexes (.text (Utf8.encode (escape text)).reverse) (pieces.flatMap Piece.octets) ms
        (.text final) ∧ ms ++ dataOf final = markups text pieces := by
  -- `text` is the character data that waits for the next tag
  induction pieces generalizing text with
  | nil =>
    refine ⟨[], (Utf8.encode (escape text)).reverse, Lexes.nil _, ?_⟩
    rw [List.nil_append, dataOf_escape, markups]
  | cons piece pieces ih =>
    obtain ⟨hpiece, hpieces⟩ := List.forall_mem_cons.1 h
    cases piece with
    | opening word attributes =>
      obtain ⟨hword, hkeys, -⟩ := hpiece
      obtain ⟨ms, final, hlex, hms⟩ := ih hpieces ""
      have htag := lexes_tagContent (qualified_ne word) (isNameOctet_qualified hword) hkeys
        (Utf8.encode (escape text)).reverse
      refine ⟨_, final, htag.append hlex, ?_⟩
      rw [List.append_assoc, hms, dataOf_escape, List.append_assoc]
      rfl
    | closing word =>
      obtain ⟨ms, final, hlex, hms⟩ := ih hpieces ""
      have htag := lexes_endTag
        (fun b hb => isBare_of_isNameOctet (isNameOctet_qualified hpiece b hb))
        (Utf8.encode (escape text)).reverse
      refine ⟨_, final, htag.append hlex, ?_⟩
      rw [List.append_assoc, hms, dataOf_escape, List.append_assoc]
      rfl
    | data more =>
      obtain ⟨ms, final, hlex, hms⟩ := ih hpieces (text ++ more)
      have hdata := lexes_data (not_mem_encode_escape (b := openBracket) (by decide) more)
        (Utf8.encode (escape text)).reverse
      refine ⟨ms, final, ?_, hms⟩
      rw [escape_append, Utf8.encode_append, List.reverse_append] at hlex
      exact hdata.append hlex

/-! ### Reading the markup -/

/-- An escaped text is read as the text. -/
lemma reads_dataMarkup (elements : List OpenElement) (text : String) :
    Reads elements (dataMarkup text) (dataNodes text) elements := by
  unfold dataMarkup dataNodes
  split
  · exact Reads.nil _
  · refine Reads.single ?_
    rw [nodeOf?, unescape?_encode_escape]
    rfl

/-- Within the root element its word stands for the namespace of the format. -/
lemma namespace?_elementOf {words : List String} (h : "dsml" ∈ words) :
    (namespace? (bindingsWithin (words.map elementOf)) (some dsmlWord)) =
      some (Utf8.encode namespaceUri) := by
  have hfind : (bindingsWithin (words.map elementOf)).find? (fun b => b.word == dsmlWord) =
      some ⟨dsmlWord, Utf8.encode namespaceUri⟩ := by
    induction words with
    | nil => exact absurd h List.not_mem_nil
    | cons word words ih =>
      rw [List.map_cons, bindingsWithin, List.flatMap_cons, elementOf]
      by_cases hword : word = "dsml"
      · simp only [hword, if_true]
        rfl
      · simp only [hword, if_false]
        exact ih ((List.mem_cons.1 h).resolve_left (Ne.symm hword))
  have hne : Utf8.encode namespaceUri ≠ [] := by decide
  have hword : dsmlWord = 0x64 :: dsmlWord.tail := rfl
  rw [namespace?]
  · simp only [Option.getD_some, hfind, if_neg hne]
  · rw [hword]
    simp

/-- A qualified name is the prefix of the format and the word. -/
lemma splitQualified_qualified (word : String) :
    splitQualified (qualified word) = (some dsmlWord, Utf8.encode word) := by
  have hcolon : 0x3A ∉ dsmlWord := by decide
  have hcut : Bytes.cutAt? 0x3A (qualified word) = some (dsmlWord, Utf8.encode word) :=
    Bytes.cutAt?_append hcolon _
  rw [splitQualified, hcut]

/-- The markup of pieces that nest is read as their nodes. -/
theorem reads_markups {pieces : List Piece} (h : ∀ p ∈ pieces, p.Proper) {words final : List String}
    (hnest : nest words pieces = some final) (text : String) :
    Reads (words.map elementOf) (markups text pieces) (nodes text pieces)
      (final.map elementOf) := by
  -- the words of the open elements are the state that `nest` goes through
  induction pieces generalizing words text with
  | nil =>
    obtain rfl := Option.some.inj hnest
    exact reads_dataMarkup _ _
  | cons piece pieces ih =>
    obtain ⟨hpiece, hpieces⟩ := List.forall_mem_cons.1 h
    cases piece with
    | opening word attributes =>
      obtain ⟨hword, hkeys, hdistinct⟩ := hpiece
      rw [nest] at hnest
      split at hnest
      · next hroot =>
        have htag : nodeOf? (words.map elementOf)
            (.startTag (tagContent (qualified word) attributes) false) =
            some (.opened (tagOf word attributes) false, (word :: words).map elementOf) := by
          have helement : elementOf word = ⟨qualified word, []⟩ := by
            rw [elementOf, if_neg hroot.1]
          rw [nodeOf?, readTag?_tagContent (isNameOctet_qualified hword) hkeys hdistinct,
            splitQualified_qualified, namespace?_elementOf hroot.2, Utf8.decodeLossy_encode,
            List.map_cons, helement]
          rfl
        exact (reads_dataMarkup _ text).append ((Reads.single htag).append (ih hpieces hnest ""))
      · simp at hnest
    | closing word =>
      rw [nest, Option.bind_eq_some_iff] at hnest
      obtain ⟨outer, hclose, hnest⟩ := hnest
      have htag : nodeOf? (words.map elementOf) (.endTag (qualified word)) =
          some (.closed, outer.map elementOf) := by
        cases words with
        | nil => simp [closeElement] at hclose
        | cons innermost outer' =>
          obtain ⟨rfl, rfl⟩ : innermost = word ∧ outer' = outer := by
            simpa [closeElement] using hclose
          rw [List.map_cons, nodeOf?]
          · rw [endName_eq_self (qualified_ne _) (isNameOctet_qualified hpiece)]
            simp [elementOf]
      exact (reads_dataMarkup _ text).append ((Reads.single htag).append (ih hpieces hnest ""))
    | data more => exact ih hpieces hnest (text ++ more)

/-! ### Walking over the nodes -/

/-- Empty character data can be left out of a walk. -/
lemma Walks.dataNodes {s u : State} {text : String} {rest : List Node}
    {outcomes : List (Except ParseError ChangeRecord)}
    (h : Walks s (.text (Utf8.encode text) :: rest) outcomes u) :
    Walks s (Dsml.dataNodes text ++ rest) outcomes u := by
  unfold Dsml.dataNodes
  split
  · next htext =>
    rw [htext] at h
    exact h.of_text_nil
  · exact h

/-- A walk goes on from a tag as it does from the tag alone. -/
lemma Walks.tail {s u : State} {first : Node} {rest more : List Node}
    {outcomes : List (Except ParseError ChangeRecord)} (h : Walks s (first :: rest) outcomes u)
    (htail : ∀ {t outcomes}, Walks t rest outcomes u → Walks t more outcomes u) :
    Walks s (first :: more) outcomes u := by
  cases h with
  | proceed step hrest => exact .proceed step (htail hrest)
  | give step hrest => exact .give step (htail hrest)

/-- A walk over the pieces as they are written is one over their nodes as they are read. -/
theorem walks_nodes {pieces : List Piece} {s u : State} {text : String}
    {outcomes : List (Except ParseError ChangeRecord)}
    (h : Walks s (.text (Utf8.encode text) :: pieces.map Piece.node) outcomes u) :
    Walks s (nodes text pieces) outcomes u := by
  induction pieces generalizing s text outcomes with
  | nil =>
    have := h.dataNodes
    rwa [List.map_nil, List.append_nil] at this
  | cons piece pieces ih =>
    have hbehind : ∀ {t : State} {outcomes : List (Except ParseError ChangeRecord)},
        Walks t (pieces.map Piece.node) outcomes u → Walks t (nodes "" pieces) outcomes u := by
      intro t outcomes hrest
      refine ih (.proceed (step_text _ _) ?_)
      rwa [Utf8.encode_eq_nil_iff.2 rfl, hear_nil]
    cases piece with
    | opening word attributes => exact (h.tail (·.tail hbehind)).dataNodes
    | closing word => exact (h.tail (·.tail hbehind)).dataNodes
    | data more =>
      refine ih ?_
      rw [Utf8.encode_append]
      exact h.join

end DirectoryExchange.Dsml

import DirectoryExchange.Xml.Markup
import Mathlib.Tactic.Lemma

/-!
# Lexing in parts

What octets lead to depends only on where they begin, so a document is lexed part by part
(`Lexes.append`).  The parts are character data, start tags and end tags; the octets of each lead
back into character data, whatever has been read before them.
-/

namespace DirectoryExchange.Xml

/-- Octets in two parts give the pieces of the first, and then those of the second from where the
first leaves off. -/
lemma lexFrom_append (taken : Nat) (p : Position) (v w : Bytes) :
    lexFrom taken p (v ++ w) =
      ((lexFrom taken p v).1 ++ (lexFrom (taken + v.length) (lexFrom taken p v).2 w).1,
        (lexFrom (taken + v.length) (lexFrom taken p v).2 w).2) := by
  induction v generalizing taken p with
  | nil => rfl
  | cons b v ih =>
    have htaken : taken + 1 + v.length = taken + (b :: v).length := by
      rw [List.length_cons]
      omega
    obtain ⟨piece, next, hstep⟩ : ∃ piece next, lexStep p b = (piece, next) := ⟨_, _, rfl⟩
    simp only [List.cons_append, lexFrom, hstep, ih, htaken]
    cases piece <;> rfl

/-- What is known after some octets does not depend on those behind them. -/
lemma lexFrom_isPrefix {v w : Bytes} (h : v <+: w) (taken : Nat) (p : Position) :
    (lexFrom taken p v).1 <+: (lexFrom taken p w).1 := by
  obtain ⟨rest, rfl⟩ := h
  rw [lexFrom_append]
  exact List.prefix_append _ _

/-- Octets that begin at `p` give these pieces and lead to `q`. -/
def Lexes (p : Position) (v : Bytes) (pieces : List Markup) (q : Position) : Prop :=
  ∀ taken, (lexFrom taken p v).1.map (·.markup) = pieces ∧ (lexFrom taken p v).2 = q

namespace Lexes

variable {p q r : Position} {v w : Bytes} {pieces more : List Markup}

lemma nil (p : Position) : Lexes p [] [] p := fun _ => ⟨rfl, rfl⟩

/-- One octet leads where its step does. -/
lemma single {b : UInt8} {piece : Option Markup} (h : lexStep p b = (piece, q)) :
    Lexes p [b] piece.toList q := by
  intro taken
  rw [lexFrom, h]
  cases piece <;> exact ⟨rfl, rfl⟩

/-- The pieces of two parts are those of the first and then those of the second. -/
theorem append (hv : Lexes p v pieces q) (hw : Lexes q w more r) :
    Lexes p (v ++ w) (pieces ++ more) r := by
  intro taken
  obtain ⟨hpieces, hq⟩ := hv taken
  obtain ⟨hmore, hr⟩ := hw (taken + v.length)
  rw [lexFrom_append, hq, List.map_append, hpieces, hmore]
  exact ⟨rfl, hr⟩

/-- Octets that are all kept are kept in order. -/
lemma keep {place : Bytes → Position}
    (h : ∀ b ∈ v, ∀ sofar, lexStep (place sofar) b = (none, place (b :: sofar))) (sofar : Bytes) :
    Lexes (place sofar) v [] (place (v.reverse ++ sofar)) := by
  induction v generalizing sofar with
  | nil => exact nil _
  | cons b v ih =>
    obtain ⟨hb, hv⟩ := List.forall_mem_cons.1 h
    have := (single (hb sofar)).append (ih hv (b :: sofar))
    simpa using this

end Lexes

/-- The piece of character data that has been read, last octet first, if there is any. -/
def dataOf (sofar : Bytes) : List Markup := if sofar = [] then [] else [.text sofar.reverse]

/-- Octets without an opening bracket go on with the character data. -/
theorem lexes_data {v : Bytes} (h : openBracket ∉ v) (sofar : Bytes) :
    Lexes (.text sofar) v [] (.text (v.reverse ++ sofar)) := by
  refine Lexes.keep ?_ sofar
  intro b hb sofar
  have hne : b ≠ openBracket := by
    rintro rfl
    exact h hb
  rw [lexStep, if_neg hne]

/-- A bracket ends the character data in front of it. -/
lemma lexes_openBracket (sofar : Bytes) :
    Lexes (.text sofar) [openBracket] (dataOf sofar) .bracket := by
  have hstep : lexStep (.text sofar) openBracket =
      (if sofar = [] then none else some (.text sofar.reverse), .bracket) := by
    rw [lexStep, if_pos rfl]
  have := Lexes.single hstep
  unfold dataOf
  split at this <;> simpa [*] using this

/-- Octets that may stand outside quotation marks in a tag. -/
def isBare (b : UInt8) : Bool := b != closeBracket && !isQuote b

/-- An octet that is neither a bracket nor a quotation mark goes on with the tag. -/
lemma lexTag_of_isBare {b : UInt8} (h : isBare b = true) : lexTag none b = some none := by
  rw [isBare, Bool.and_eq_true, bne_iff_ne, Bool.not_eq_true'] at h
  rw [lexTag, if_neg h.1, h.2]
  rfl

lemma lexes_bare {v : Bytes} (h : ∀ b ∈ v, isBare b = true) (sofar : Bytes) :
    Lexes (.startTag none sofar) v [] (.startTag none (v.reverse ++ sofar)) := by
  refine Lexes.keep ?_ sofar
  intro b hb sofar
  rw [lexStep, lexTag_of_isBare (h b hb)]

/-- The double quotation mark. -/
def doubleQuote : UInt8 := 0x22

/-- Between quotation marks any other octet is part of the tag. -/
lemma lexes_quoted {quote : UInt8} (hquote : isQuote quote = true) {v : Bytes} (h : quote ∉ v)
    (sofar : Bytes) :
    Lexes (.startTag none sofar) (quote :: v ++ [quote]) []
      (.startTag none ((quote :: v ++ [quote]).reverse ++ sofar)) := by
  have hbracket : quote ≠ closeBracket := by
    rintro rfl
    exact absurd hquote (by decide)
  have hopen : Lexes (.startTag none sofar) [quote] []
      (.startTag (some quote) (quote :: sofar)) := by
    have hstep : lexStep (.startTag none sofar) quote =
        (none, .startTag (some quote) (quote :: sofar)) := by
      rw [lexStep, lexTag, if_neg hbracket, if_pos hquote]
    exact Lexes.single hstep
  have hin : Lexes (.startTag (some quote) (quote :: sofar)) v []
      (.startTag (some quote) (v.reverse ++ quote :: sofar)) := by
    refine Lexes.keep ?_ _
    intro b hb sofar
    have hne : b ≠ quote := by
      rintro rfl
      exact h hb
    rw [lexStep, lexTag, if_neg hne]
  have hclose : Lexes (.startTag (some quote) (v.reverse ++ quote :: sofar))
      [quote] [] (.startTag none (quote :: (v.reverse ++ quote :: sofar))) := by
    have hstep : lexStep (.startTag (some quote) (v.reverse ++ quote :: sofar)) quote =
        (none, .startTag none (quote :: (v.reverse ++ quote :: sofar))) := by
      rw [lexStep, lexTag, if_pos rfl]
    exact Lexes.single hstep
  have := (hopen.append hin).append hclose
  simpa using this

/-- What stands between brackets is a start tag, if it begins as the name of an element does. -/
lemma lexes_tag {first : UInt8} {content : Bytes} (hfirst : isBare first = true)
    (hmark : first ∉ [exclamationMark, slash, questionMark])
    (hcontent : Lexes (.startTag none [first]) content []
      (.startTag none (content.reverse ++ [first]))) (sofar : Bytes) :
    Lexes (.text sofar) (openBracket :: first :: content ++ [closeBracket])
      (dataOf sofar ++ [tagOf (first :: content).reverse]) (.text []) := by
  have hbare := hfirst
  rw [isBare, Bool.and_eq_true, bne_iff_ne, Bool.not_eq_true'] at hbare
  simp only [List.mem_cons, List.not_mem_nil, or_false, not_or] at hmark
  have hbegin : Lexes .bracket [first] [] (.startTag none [first]) := by
    have hstep : lexStep .bracket first = (none, .startTag none [first]) := by
      rw [lexStep, lexBracket, if_neg hmark.1, if_neg hmark.2.1, if_neg hmark.2.2, if_neg hbare.1,
        hbare.2]
      rfl
    exact Lexes.single hstep
  have hend : Lexes (.startTag none (content.reverse ++ [first])) [closeBracket]
      [tagOf (content.reverse ++ [first])] (.text []) := by
    have hstep : lexStep (.startTag none (content.reverse ++ [first])) closeBracket =
        (some (tagOf (content.reverse ++ [first])), .text []) := by
      rw [lexStep, lexTag, if_pos rfl]
    exact Lexes.single hstep
  have := (((lexes_openBracket sofar).append hbegin).append hcontent).append hend
  simpa using this

/-- A tag whose content does not end in a slash is a start tag. -/
lemma tagOf_of_last {content : Bytes} (h : content.getLast? ≠ some slash) :
    tagOf content.reverse = .startTag content false := by
  rw [← List.head?_reverse] at h
  unfold tagOf
  split
  · next b rest hb =>
    rw [hb, List.head?_cons, ne_eq, Option.some.injEq] at h
    rw [if_neg h, List.reverse_reverse]
  · next hb =>
    rw [List.reverse_eq_nil_iff.1 hb]

/-- A tag whose content ends in a slash is start and end in one. -/
lemma tagOf_slash (content : Bytes) :
    tagOf (content ++ [slash]).reverse = .startTag content true := by
  rw [List.reverse_append, List.reverse_singleton, List.singleton_append, tagOf]
  simp only [if_true, List.reverse_reverse]

/-- An end tag gives nothing yet as long as its last bracket is missing. -/
lemma lexes_endTagOpening {content : Bytes} (h : ∀ b ∈ content, isBare b = true) (sofar : Bytes) :
    Lexes (.text sofar) (openBracket :: slash :: content) (dataOf sofar)
      (.endTag none content.reverse) := by
  have hbegin : Lexes .bracket [slash] [] (.endTag none []) :=
    Lexes.single (by rfl)
  have hcontent : Lexes (.endTag none []) content [] (.endTag none (content.reverse ++ [])) := by
    refine Lexes.keep ?_ []
    intro b hb sofar
    rw [lexStep, lexTag_of_isBare (h b hb)]
  have := ((lexes_openBracket sofar).append hbegin).append hcontent
  simpa using this

/-- An end tag gives its content. -/
theorem lexes_endTag {content : Bytes} (h : ∀ b ∈ content, isBare b = true) (sofar : Bytes) :
    Lexes (.text sofar) (openBracket :: slash :: content ++ [closeBracket])
      (dataOf sofar ++ [.endTag content]) (.text []) := by
  have hend : Lexes (.endTag none content.reverse) [closeBracket] [.endTag content]
      (.text []) := by
    have hstep : lexStep (.endTag none content.reverse) closeBracket =
        (some (.endTag content), .text []) := by
      rw [lexStep, lexTag, if_pos rfl, List.reverse_reverse]
    exact Lexes.single hstep
  exact (lexes_endTagOpening h sofar).append hend

/-- A document that ends in character data is whole. -/
theorem lex_of_lexes {document : Bytes} {pieces : List Markup} {sofar : Bytes}
    (h : Lexes (.text []) document pieces (.text sofar)) :
    (lex document true).1.map (·.markup) = pieces ++ dataOf sofar ∧
      (lex document true).2 = true := by
  obtain ⟨lexemes, final, hlexemes⟩ : ∃ lexemes final,
      lexFrom 0 (.text []) document = (lexemes, final) := ⟨_, _, rfl⟩
  obtain ⟨hpieces, hfinal⟩ := h 0
  rw [hlexemes] at hpieces hfinal
  simp only at hpieces hfinal
  rw [lex, hlexemes, hfinal]
  cases sofar with
  | nil => exact ⟨by rw [dataOf, if_pos rfl, List.append_nil, hpieces], rfl⟩
  | cons b rest =>
    refine ⟨?_, rfl⟩
    rw [dataOf, if_neg (List.cons_ne_nil b rest), ← hpieces]
    exact List.map_append

/-- At the end of a document there is nothing but character data that has not ended. -/
lemma exists_lex_eq (document : Bytes) : ∃ (behind : List Lexeme) (complete : Bool),
    (∀ lexeme ∈ behind, ∃ raw, lexeme.markup = .text raw) ∧
      lex document true = ((lexFrom 0 (.text []) document).1 ++ behind, complete) := by
  have hnone : ∀ lexeme ∈ ([] : List Lexeme), ∃ raw, lexeme.markup = .text raw :=
    fun _ h => absurd h List.not_mem_nil
  obtain ⟨lexemes, final, hlexemes⟩ : ∃ lexemes final,
      lexFrom 0 (.text []) document = (lexemes, final) := ⟨_, _, rfl⟩
  simp only [lex, hlexemes]
  split
  · next h => cases h
  · exact ⟨[], true, hnone, by rw [List.append_nil]⟩
  · exact ⟨[_], true, by simp, rfl⟩
  · exact ⟨[], false, hnone, by rw [List.append_nil]⟩

/-! ### Byte order marks -/

lemma markLength_of_unmarked {document : Bytes} (h : byteOrderMark.isPrefixOf document = false)
    (portion : Option Nat) : markLength { bytes := document, portion } = 0 := by
  rw [markLength, h, Bool.false_and, if_neg Bool.false_ne_true]

/-- A byte order mark is no longer than what the stream gives. -/
lemma markLength_le (source : Source) : markLength source ≤ source.bytes.length := by
  rw [markLength]
  split
  · next h =>
    rw [Bool.and_eq_true, List.isPrefixOf_iff_prefix] at h
    exact h.1.length_le
  · exact Nat.zero_le _

/-- There is no bracket in a byte order mark. -/
lemma markLength_append (before rest : Bytes) (portion : Option Nat) :
    markLength { bytes := before ++ openBracket :: rest, portion } =
      markLength { bytes := before, portion } := by
  have hmark : byteOrderMark.isPrefixOf (before ++ openBracket :: rest) =
      byteOrderMark.isPrefixOf before := by
    rcases before with _ | ⟨a, _ | ⟨b, _ | ⟨c, before⟩⟩⟩ <;>
      simp [byteOrderMark, openBracket, List.isPrefixOf]
  rw [markLength, markLength, hmark]

end DirectoryExchange.Xml

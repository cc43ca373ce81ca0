import DirectoryExchange.Proofs.Xml.Tag
import DirectoryExchange.Xml.Node

/-!
# Nodes in parts

Pieces of a document are read as nodes one after the other, so a list of pieces is read part by
part (`Reads.append`).  What is read of a document that is cut off is the beginning of what is read
of the whole (`nodesOver_of_isPrefix`).
-/

namespace DirectoryExchange.Xml

/-- Inside `elements` the pieces are read as these nodes and leave `inner` open. -/
def Reads (elements : List OpenElement) (pieces : List Markup) (nodes : List Node)
    (inner : List OpenElement) : Prop :=
  ∀ lexemes : List Lexeme, lexemes.map (·.markup) = pieces → ∀ rest,
    ∃ placed : List PlacedNode, placed.map (·.node) = nodes ∧
      nodesWithin elements (lexemes ++ rest) =
        (placed ++ (nodesWithin inner rest).1, (nodesWithin inner rest).2)

namespace Reads

variable {elements inner within : List OpenElement} {pieces more : List Markup}
  {nodes others : List Node}

lemma nil (elements : List OpenElement) : Reads elements [] [] elements := by
  intro lexemes hlexemes rest
  obtain rfl := List.map_eq_nil_iff.1 hlexemes
  exact ⟨[], rfl, rfl⟩

/-- A piece that is read is one node. -/
lemma single {piece : Markup} {node : Node} (h : nodeOf? elements piece = some (node, inner)) :
    Reads elements [piece] [node] inner := by
  intro lexemes hlexemes rest
  obtain ⟨lexeme, none, rfl, hpiece, hnone⟩ := List.map_eq_cons_iff.1 hlexemes
  obtain rfl := List.map_eq_nil_iff.1 hnone
  refine ⟨[⟨node, lexeme.position⟩], rfl, ?_⟩
  rw [List.singleton_append, nodesWithin, hpiece, h]
  rfl

/-- The nodes of two parts are those of the first and then those of the second. -/
theorem append (hfirst : Reads elements pieces nodes inner)
    (hsecond : Reads inner more others within) :
    Reads elements (pieces ++ more) (nodes ++ others) within := by
  intro lexemes hlexemes rest
  obtain ⟨first, second, rfl, hpieces, hmore⟩ := List.map_eq_append_iff.1 hlexemes
  obtain ⟨placed, hplaced, heq⟩ := hfirst first hpieces (second ++ rest)
  obtain ⟨placed', hplaced', heq'⟩ := hsecond second hmore rest
  refine ⟨placed ++ placed', by rw [List.map_append, hplaced, hplaced'], ?_⟩
  rw [List.append_assoc, heq, heq', List.append_assoc]

/-- Pieces that are read leave nothing malformed. -/
lemma nodesWithin_eq (h : Reads elements pieces nodes inner) {lexemes : List Lexeme}
    (hlexemes : lexemes.map (·.markup) = pieces) :
    (nodesWithin elements lexemes).1.map (·.node) = nodes ∧
      (nodesWithin elements lexemes).2 = true := by
  obtain ⟨placed, hplaced, heq⟩ := h lexemes hlexemes []
  rw [List.append_nil] at heq
  rw [heq]
  exact ⟨by simpa [nodesWithin] using hplaced, rfl⟩

end Reads

/-- An end tag names its element, whatever white space follows the name. -/
lemma endName_append {name : Bytes} (hne : name ≠ []) (h : ∀ b ∈ name, isNameOctet b = true)
    (gap : Gap) : endName (name ++ gap.1) = name := by
  obtain ⟨first, rest, hfirst⟩ := List.exists_cons_of_ne_nil hne
  have hall : (name ++ gap.1).all isGap = false := by
    have hname : isGap first = false := isGap_of_isNameOctet (h first (by simp [hfirst]))
    rw [hfirst, List.cons_append, List.all_cons, hname, Bool.false_and]
  have hgap : ∀ b ∈ gap.1.reverse, isGap b = true := fun b hb => gap.2 b (List.mem_reverse.1 hb)
  have hkeep : name.reverse.dropWhile isGap = name.reverse := by
    cases hreverse : name.reverse with
    | nil => rfl
    | cons b rest =>
      have hb : b ∈ name := List.mem_reverse.1 (by rw [hreverse]; exact List.mem_cons_self)
      rw [List.dropWhile_cons_of_neg (by simp [isGap_of_isNameOctet (h b hb)])]
  rw [endName, hall, if_neg Bool.false_ne_true, List.reverse_append,
    List.dropWhile_append_of_pos hgap, hkeep, List.reverse_reverse]

/-- An end tag without white space behind the name has its content for a name. -/
lemma endName_eq_self {name : Bytes} (hne : name ≠ []) (h : ∀ b ∈ name, isNameOctet b = true) :
    endName name = name := by
  have := endName_append hne h noGap
  rwa [noGap, List.append_nil] at this

/-- A document that ends in character data, behind the byte order mark that may stand in front of
it, is read as the nodes of its pieces. -/
theorem ofSource_of_lexes (source : Source) (hends : source.failure = none)
    {pieces : List Markup} {sofar : Bytes}
    (hlex : Lexes (.text []) (source.bytes.drop (markLength source)) pieces (.text sofar))
    {nodes : List Node} {inner : List OpenElement}
    (hread : Reads [] (pieces ++ dataOf sofar) nodes inner) :
    ∃ placed : List PlacedNode, placed.map (·.node) = nodes ∧
      Document.ofSource source = ⟨markLength source,
        (source.bytes.drop (markLength source)).length, placed, true⟩ := by
  obtain ⟨hpieces, hcomplete⟩ := lex_of_lexes hlex
  obtain ⟨hnodes, hwhole⟩ := hread.nodesWithin_eq hpieces
  refine ⟨(nodesWithin [] (lex (source.bytes.drop (markLength source)) true).1).1, hnodes, ?_⟩
  simp only [Document.ofSource, hends, Option.isNone_none, hwhole, hcomplete, Bool.and_self,
    if_true]

/-! ### Parts that are cut off -/

/-- The nodes of two parts are those of the first and, if these are well-formed, then those of the
second, inside the elements that the first leaves open. -/
lemma nodesWithin_append (elements : List OpenElement) (lexemes : List Lexeme) :
    ∃ inner, ∀ rest, nodesWithin elements (lexemes ++ rest) =
      if (nodesWithin elements lexemes).2 then
        ((nodesWithin elements lexemes).1 ++ (nodesWithin inner rest).1,
          (nodesWithin inner rest).2)
      else ((nodesWithin elements lexemes).1, false) := by
  induction lexemes generalizing elements with
  | nil => exact ⟨elements, fun _ => rfl⟩
  | cons lexeme lexemes ih =>
    cases hnode : nodeOf? elements lexeme.markup with
    | none => exact ⟨[], fun rest => by simp [nodesWithin, hnode]⟩
    | some read =>
      obtain ⟨node, within⟩ := read
      obtain ⟨inner, hinner⟩ := ih within
      refine ⟨inner, fun rest => ?_⟩
      simp only [List.cons_append, nodesWithin, hnode, hinner]
      split <;> rfl

/-- The nodes that are over within the octets, and whether all of them are well-formed. -/
def nodesOver (octets : Bytes) : List PlacedNode × Bool :=
  nodesWithin [] (lexFrom 0 (.text []) octets).1

/-- Pieces that are over are read as nodes that are over. -/
lemma nodesOver_of_lexes {octets : Bytes} {pieces : List Markup} {p : Position}
    (hlex : Lexes (.text []) octets pieces p) {nodes : List Node} {inner : List OpenElement}
    (hread : Reads [] pieces nodes inner) :
    (nodesOver octets).1.map (·.node) = nodes ∧ (nodesOver octets).2 = true :=
  hread.nodesWithin_eq (hlex 0).1

/-- The nodes over within a part that is cut off are the first ones of those over within the
whole. -/
theorem nodesOver_of_isPrefix {v w : Bytes} (h : v <+: w) :
    (nodesOver v).1 <+: (nodesOver w).1 ∧ ((nodesOver w).2 = true → (nodesOver v).2 = true) := by
  obtain ⟨rest, hrest⟩ := lexFrom_isPrefix h 0 (.text [])
  obtain ⟨inner, hinner⟩ := nodesWithin_append [] (lexFrom 0 (.text []) v).1
  rw [nodesOver, nodesOver, ← hrest, hinner]
  split
  · next hwhole => exact ⟨List.prefix_append _ _, fun _ => hwhole⟩
  · exact ⟨List.prefix_refl _, fun hwhole => absurd hwhole Bool.false_ne_true⟩

/-- Character data is read as such, if it is well-formed. -/
lemma nodesWithin_texts (elements : List OpenElement) {lexemes : List Lexeme}
    (h : ∀ lexeme ∈ lexemes, ∃ raw, lexeme.markup = .text raw) :
    ∀ x ∈ (nodesWithin elements lexemes).1, ∃ value, x.node = .text value := by
  induction lexemes with
  | nil => exact fun x hx => absurd hx List.not_mem_nil
  | cons lexeme lexemes ih =>
    obtain ⟨⟨raw, hraw⟩, hlexemes⟩ := List.forall_mem_cons.1 h
    rw [nodesWithin, hraw, nodeOf?]
    cases unescape? raw with
    | none => exact fun x hx => absurd hx List.not_mem_nil
    | some value => exact List.forall_mem_cons.2 ⟨⟨_, rfl⟩, ih hlexemes⟩

/-- A document that is cut off is read as the nodes that are over, and possibly the character data
behind them. -/
theorem ofSource_of_nodesOver {document : Bytes}
    (hmark : byteOrderMark.isPrefixOf document = false) (portion : Option Nat)
    (hover : (nodesOver document).2 = true) :
    ∃ (texts : List PlacedNode) (whole : Bool) (extent : Nat),
      (∀ x ∈ texts, ∃ value, x.node = .text value) ∧
        Document.ofSource { bytes := document, portion } =
          ⟨0, extent, (nodesOver document).1 ++ texts, whole⟩ := by
  obtain ⟨behind, complete, hbehind, hlex⟩ := exists_lex_eq document
  obtain ⟨inner, hinner⟩ := nodesWithin_append [] (lexFrom 0 (.text []) document).1
  have hnodes := hinner behind
  rw [← nodesOver, hover, if_pos rfl] at hnodes
  refine ⟨(nodesWithin inner behind).1, (nodesWithin inner behind).2 && complete,
    (Document.ofSource { bytes := document, portion }).extent,
    nodesWithin_texts inner hbehind, ?_⟩
  simp only [Document.ofSource, markLength_of_unmarked hmark, List.drop_zero, Option.isNone_none,
    hlex, hnodes]

end DirectoryExchange.Xml

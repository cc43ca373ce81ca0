import DirectoryExchange.Proofs.Xml.Forest
import DirectoryExchange.Proofs.Xml.Namespace
import DirectoryExchange.Proofs.Xml.Node
import DirectoryExchange.Proofs.Xml.Sections

/-!
# Contents

What a document or an element contains is character data with markup in between (`Content`).  It
stands for a tree (`Content.tree`), in which comments, instructions and the spelling of tags and
character data have left no trace.  Its octets are lexed as its pieces (`Content.lexes`), and the
pieces are read as nodes of the tree (`Content.reads`); a byte order mark in front does not matter
(`Content.exists_unmarked`).
-/

namespace DirectoryExchange.Xml

/-! ### Contents as they are written -/

/-- Markup that is no tag. -/
inductive Passage where
  | comment (comment : Comment)
  | instruction (instruction : Instruction)
  | literal (literal : Literal)

/-- What a document or an element contains: character data, of which there may be none, with markup
in between. -/
inductive Content where
  /-- Character data to the end. -/
  | data (data : CharacterData)
  /-- Character data, markup that is no tag, and what follows. -/
  | passage (data : CharacterData) (passage : Passage) (rest : Content)
  /-- Character data, an element in a single tag, and what follows. -/
  | empty (data : CharacterData) (tag : WrittenTag) (rest : Content)
  /-- Character data, an element between two tags, with white space at the end of the second, and
  what follows. -/
  | element (data : CharacterData) (tag : WrittenTag) (inside : Content) (gap : Gap)
      (rest : Content)

/-- The markup as octets. -/
def Passage.octets : Passage → Bytes
  | comment c => c.octets
  | instruction i => i.octets
  | literal l => l.octets

namespace WrittenTag

/-- The start tag as octets. -/
def startOctets (t : WrittenTag) : Bytes := openBracket :: t.content ++ [closeBracket]

/-- The tag as octets if it is start and end in one. -/
def emptyOctets (t : WrittenTag) : Bytes := openBracket :: t.content ++ [slash, closeBracket]

/-- What stands behind the slash of the end tag. -/
def endContent (t : WrittenTag) (gap : Gap) : Bytes := t.qualified ++ gap.1

/-- The end tag as octets. -/
def endOctets (t : WrittenTag) (gap : Gap) : Bytes :=
  openBracket :: slash :: t.endContent gap ++ [closeBracket]

end WrittenTag

/-- The content as octets. -/
def Content.octets : Content → Bytes
  | data d => d.octets
  | passage d p rest => d.octets ++ p.octets ++ rest.octets
  | empty d t rest => d.octets ++ t.emptyOctets ++ rest.octets
  | element d t inside gap rest =>
    d.octets ++ t.startOctets ++ inside.octets ++ t.endOctets gap ++ rest.octets

/-! ### Contents as trees -/

/-- The character data in front of siblings, if there is any. -/
def CharacterData.before (d : CharacterData) (f : Forest) : Forest :=
  if d.octets = [] then f else .text (Utf8.encode d.meant) f

/-- The markup in front of siblings, where only literal sections are left of it. -/
def Passage.before (p : Passage) (f : Forest) : Forest :=
  match p with
  | comment _ => f
  | instruction _ => f
  | literal l => .text l.raw f

/-- The content as a tree, given the namespaces around it.  References are resolved; in all else
character data and values stand in the tree as they are written. -/
def Content.tree (scope : Scope) : Content → Forest
  | data d => d.before .nil
  | passage d p rest => d.before (p.before (rest.tree scope))
  | empty d t rest => d.before (.element (t.tag scope) .nil (rest.tree scope))
  | element d t inside _ rest =>
    d.before (.element (t.tag scope) (inside.tree (t.within scope)) (rest.tree scope))

/-- Character data brings no elements. -/
@[simp] lemma CharacterData.elements_before (d : CharacterData) (f : Forest) :
    (d.before f).elements = f.elements := by
  unfold before
  split <;> rfl

/-! ### Lexing -/

/-- The character data as a piece, if there is any. -/
def CharacterData.pieces (d : CharacterData) : List Markup := dataOf d.octets.reverse

/-- The markup as a piece, if it is one. -/
def Passage.pieces : Passage → List Markup
  | comment _ => []
  | instruction _ => []
  | literal l => [.literal l.raw]

/-- The pieces of the content. -/
def Content.pieces : Content → List Markup
  | data d => d.pieces
  | passage d p rest => d.pieces ++ p.pieces ++ rest.pieces
  | empty d t rest => d.pieces ++ [.startTag t.content true] ++ rest.pieces
  | element d t inside gap rest =>
    d.pieces ++ [.startTag t.content false] ++ inside.pieces ++ [.endTag (t.endContent gap)] ++
      rest.pieces

/-- Character data is lexed as such, and waits for the next markup. -/
lemma CharacterData.lexes (d : CharacterData) :
    Lexes (.text []) d.octets [] (.text d.octets.reverse) := by
  have := lexes_data d.openBracket_not_mem []
  rwa [List.append_nil] at this

/-- A passage between tags is lexed as its pieces, behind the data in front of it. -/
lemma Passage.lexes (p : Passage) (sofar : Bytes) :
    Lexes (.text sofar) p.octets (dataOf sofar ++ p.pieces) (.text []) := by
  cases p with
  | comment c =>
    rw [pieces, List.append_nil]
    exact c.lexes sofar
  | instruction i =>
    rw [pieces, List.append_nil]
    exact i.lexes sofar
  | literal l => exact l.lexes sofar

namespace WrittenTag

lemma lexes_startOctets (t : WrittenTag) (sofar : Bytes) :
    Lexes (.text sofar) t.startOctets (dataOf sofar ++ [.startTag t.content false]) (.text []) :=
  lexes_startTag t.isNameOctet_qualified t.attributes t.gap t.qualified_ne sofar

lemma lexes_emptyOctets (t : WrittenTag) (sofar : Bytes) :
    Lexes (.text sofar) t.emptyOctets (dataOf sofar ++ [.startTag t.content true]) (.text []) :=
  lexes_emptyTag t.isNameOctet_qualified t.attributes t.gap t.qualified_ne sofar

lemma lexes_endOctets (t : WrittenTag) (gap : Gap) (sofar : Bytes) :
    Lexes (.text sofar) (t.endOctets gap) (dataOf sofar ++ [.endTag (t.endContent gap)])
      (.text []) := by
  refine lexes_endTag ?_ sofar
  intro b hb
  rcases List.mem_append.1 hb with hb | hb
  · exact isBare_of_isNameOctet (t.isNameOctet_qualified b hb)
  · exact isBare_of_isGap (gap.2 b hb)

end WrittenTag

/-- The octets of a content are lexed as its pieces, of which the last may still be open. -/
theorem Content.lexes (c : Content) :
    ∃ pieces final, Lexes (.text []) c.octets pieces (.text final) ∧
      pieces ++ dataOf final = c.pieces := by
  induction c with
  | data d => exact ⟨[], d.octets.reverse, d.lexes, rfl⟩
  | passage d p rest ih =>
    obtain ⟨more, final, hrest, hmore⟩ := ih
    have hlex := (d.lexes.append (p.lexes _)).append hrest
    refine ⟨_, final, hlex, ?_⟩
    rw [List.append_assoc, hmore]
    rfl
  | empty d t rest ih =>
    obtain ⟨more, final, hrest, hmore⟩ := ih
    have hlex := (d.lexes.append (t.lexes_emptyOctets _)).append hrest
    refine ⟨_, final, hlex, ?_⟩
    rw [List.append_assoc, hmore]
    rfl
  | element d t inside gap rest ihinside ih =>
    obtain ⟨within, open', hinside, hwithin⟩ := ihinside
    obtain ⟨more, final, hrest, hmore⟩ := ih
    have hlex := (((d.lexes.append (t.lexes_startOctets _)).append hinside).append
      (t.lexes_endOctets gap open')).append hrest
    refine ⟨_, final, hlex, ?_⟩
    rw [List.append_assoc, hmore, pieces, ← hwithin]
    simp [CharacterData.pieces]

/-! ### Reading -/

section Reading

variable {elements inner : List OpenElement} {pieces : List Markup} {nodes : List Node}
  {f : Forest}

/-- Character data in front is read as such. -/
lemma CharacterData.reads (d : CharacterData) (hf : f.Flat nodes)
    (h : Reads elements pieces nodes inner) :
    ∃ nodes', (d.before f).Flat nodes' ∧ Reads elements (d.pieces ++ pieces) nodes' inner := by
  unfold before CharacterData.pieces dataOf
  by_cases hnone : d.octets = []
  · simp only [hnone, if_true, List.reverse_nil, List.nil_append]
    exact ⟨nodes, hf, h⟩
  · have hnode : nodeOf? elements (.text d.octets) =
        some (.text (Utf8.encode d.meant), elements) := by
      rw [nodeOf?, d.unescape?_octets, Option.map_some]
    simp only [hnone, if_false, List.reverse_eq_nil_iff, List.reverse_reverse]
    exact ⟨_, .text hf, (Reads.single hnode).append h⟩

/-- A passage in front is read as what it says. -/
lemma Passage.reads (p : Passage) (hf : f.Flat nodes) (h : Reads elements pieces nodes inner) :
    ∃ nodes', (p.before f).Flat nodes' ∧ Reads elements (p.pieces ++ pieces) nodes' inner := by
  cases p with
  | comment => exact ⟨nodes, hf, h⟩
  | instruction => exact ⟨nodes, hf, h⟩
  | literal l => exact ⟨_, .text hf, (Reads.single rfl).append h⟩

end Reading

/-- The end tag of an element closes it, with white space behind its name or without. -/
lemma WrittenTag.nodeOf?_endContent (t : WrittenTag) (gap : Gap) (elements : List OpenElement) :
    nodeOf? (t.element :: elements) (.endTag (t.endContent gap)) = some (.closed, elements) := by
  have hname : t.element.name = endName (t.endContent gap) :=
    (endName_append t.qualified_ne t.isNameOctet_qualified gap).symm
  rw [nodeOf?]
  exact if_pos hname

/-- The pieces of a content are read as nodes of its tree. -/
theorem Content.reads (c : Content) {elements : List OpenElement} {scope : Scope}
    (h : Holds elements scope) :
    ∃ nodes, (c.tree scope).Flat nodes ∧ Reads elements c.pieces nodes elements := by
  -- inside of an element its own scope holds, behind it the outer one
  induction c generalizing elements scope with
  | data d =>
    have := d.reads .nil (Reads.nil elements)
    rwa [List.append_nil] at this
  | passage d p rest ih =>
    obtain ⟨nodes, hnodes, hread⟩ := ih h
    obtain ⟨nodes, hnodes, hread⟩ := p.reads hnodes hread
    rw [pieces, List.append_assoc]
    exact d.reads hnodes hread
  | empty d t rest ih =>
    obtain ⟨nodes, hnodes, hread⟩ := ih h
    have htag : nodeOf? elements (.startTag t.content true) =
        some (.opened (t.tag scope) true, elements) := by
      rw [nodeOf?, t.readTag?_content h]
      rfl
    rw [pieces, List.append_assoc]
    exact d.reads (.empty hnodes) ((Reads.single htag).append hread)
  | element d t inside gap rest ihinside ih =>
    obtain ⟨within, hwithin, hinside⟩ := ihinside (t.holds_within h)
    obtain ⟨nodes, hnodes, hread⟩ := ih h
    have htag : nodeOf? elements (.startTag t.content false) =
        some (.opened (t.tag scope) false, t.element :: elements) := by
      rw [nodeOf?, t.readTag?_content h]
      rfl
    have hend := Reads.single (t.nodeOf?_endContent gap elements)
    have helement := ((Reads.single htag).append hinside).append (hend.append hread)
    have := d.reads (.element hwithin hnodes) (by simpa using helement)
    rw [tree, pieces]
    simpa using this

/-! ### Byte order marks -/

/-- The byte order mark is a character of its own. -/
lemma encode_byteOrderMark : Utf8.encode "\uFEFF" = byteOrderMark := by decide

/-- Character data that begins with the mark, without it. -/
lemma CharacterData.exists_unmarked (d : CharacterData) {rest : Bytes}
    (hrest : ∀ b, rest.head? = some b → b = openBracket)
    (h : byteOrderMark <+: d.octets ++ rest) :
    ∃ d' : CharacterData, d.octets = byteOrderMark ++ d'.octets := by
  obtain ⟨behind, hbehind⟩ := h
  cases hwritten : d.written.toList with
  | nil =>
    rw [octets, Utf8.encode, hwritten] at hbehind
    have := hrest 0xEF (by rw [← List.nil_append rest]; exact congrArg List.head? hbehind.symm)
    exact absurd this (by decide)
  | cons c written =>
    have hscan := congrArg (Utf8.scan .empty) hbehind
    rw [octets, ← encode_byteOrderMark, Utf8.encode, Utf8.encode, Utf8.scan_encodeChars,
      Utf8.scan_encodeChars, hwritten] at hscan
    obtain ⟨hc, -⟩ := List.cons.inj hscan
    obtain rfl : '\uFEFF' = c := Option.some.inj hc
    have hdenotes := d.denotes
    rw [hwritten] at hdenotes
    obtain ⟨meant, hmeant⟩ := hdenotes.exists_tail (by decide)
    have hparts : d.written = "\uFEFF" ++ String.ofList written := by
      rw [← String.toList_inj, hwritten]
      simp
    refine ⟨⟨String.ofList written, String.ofList meant, by simpa using hmeant⟩, ?_⟩
    rw [octets, octets, hparts, Utf8.encode_append, encode_byteOrderMark]

/-- What stands in front of the first markup can be replaced. -/
lemma Content.exists_lead (c : Content) :
    ∃ (d : CharacterData) (rest : Bytes), c.octets = d.octets ++ rest ∧
      (∀ b, rest.head? = some b → b = openBracket) ∧
      ∀ d' : CharacterData, ∃ c' : Content, c'.octets = d'.octets ++ rest ∧
        ∀ scope, (c'.tree scope).elements = (c.tree scope).elements := by
  cases c with
  | data d =>
    refine ⟨d, [], (List.append_nil _).symm, by simp, fun d' => ⟨.data d', ?_, ?_⟩⟩
    · exact (List.append_nil _).symm
    · exact fun _ => by simp [tree]
  | passage d p rest =>
    have hhead : ∀ b, (p.octets ++ rest.octets).head? = some b → b = openBracket := by
      intro b hb
      cases p <;> exact (Option.some.inj hb).symm
    refine ⟨d, _, List.append_assoc .., hhead, fun d' => ⟨.passage d' p rest, ?_, ?_⟩⟩
    · exact List.append_assoc ..
    · exact fun _ => by simp [tree]
  | empty d t rest =>
    refine ⟨d, _, List.append_assoc .., ?_, fun d' => ⟨.empty d' t rest, ?_, ?_⟩⟩
    · exact fun b hb => (Option.some.inj hb).symm
    · exact List.append_assoc ..
    · exact fun _ => by simp [tree]
  | element d t inside gap rest =>
    refine ⟨d, t.startOctets ++ (inside.octets ++ (t.endOctets gap ++ rest.octets)), ?_, ?_,
      fun d' => ⟨.element d' t inside gap rest, ?_, ?_⟩⟩
    · simp [octets]
    · exact fun b hb => (Option.some.inj hb).symm
    · simp [octets]
    · exact fun _ => by simp [tree]

/-- A byte order mark in front of a content is no part of its elements. -/
theorem Content.exists_unmarked {c : Content} (h : byteOrderMark <+: c.octets) :
    ∃ c' : Content, c.octets = byteOrderMark ++ c'.octets ∧
      ∀ scope, (c'.tree scope).elements = (c.tree scope).elements := by
  obtain ⟨d, rest, hc, hrest, hlead⟩ := c.exists_lead
  rw [hc] at h
  obtain ⟨d', hd⟩ := d.exists_unmarked hrest h
  obtain ⟨c', hc', helements⟩ := hlead d'
  refine ⟨c', ?_, helements⟩
  rw [hc, hc', hd, List.append_assoc]

/-- Behind the byte order mark that a stream recognizes there is a content with the same
elements. -/
theorem Content.exists_behind (c : Content) (portion : Option Nat) :
    ∃ c' : Content,
      c.octets.drop (markLength { bytes := c.octets, portion }) = c'.octets ∧
      ∀ scope, (c'.tree scope).elements = (c.tree scope).elements := by
  by_cases hmark : byteOrderMark.isPrefixOf c.octets
  · rw [markLength]
    split
    · obtain ⟨c', hc, helements⟩ := exists_unmarked (List.isPrefixOf_iff_prefix.1 hmark)
      refine ⟨c', ?_, helements⟩
      rw [hc, List.drop_left]
    · exact ⟨c, rfl, fun _ => rfl⟩
  · refine ⟨c, ?_, fun _ => rfl⟩
    rw [markLength_of_unmarked (eq_false_of_ne_true hmark), List.drop_zero]

/-- A content that is handed out by a stream is read as a document whose nodes are those of a tree
with the same elements. -/
theorem Content.exists_ofSource (c : Content) (portion : Option Nat) :
    ∃ (f : Forest) (placed : List PlacedNode) (start extent : Nat),
      f.elements = (c.tree fun _ => []).elements ∧ f.Flat (placed.map (·.node)) ∧
      Document.ofSource { bytes := c.octets, portion } = ⟨start, extent, placed, true⟩ := by
  obtain ⟨c', hc, helements⟩ := c.exists_behind portion
  obtain ⟨pieces, final, hlex, hpieces⟩ := c'.lexes
  obtain ⟨nodes, hflat, hread⟩ := c'.reads holds_nil
  rw [← hpieces] at hread
  obtain ⟨placed, rfl, hdocument⟩ :=
    ofSource_of_lexes { bytes := c.octets, portion } rfl (by rw [hc]; exact hlex) hread
  exact ⟨_, placed, _, _, helements _, hflat, hdocument⟩

end DirectoryExchange.Xml

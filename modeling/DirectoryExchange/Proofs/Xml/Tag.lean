import DirectoryExchange.Proofs.Xml.Escape
import DirectoryExchange.Proofs.Xml.WrittenTag

/-!
# Tags there and back

A tag is written as a name and attributes whose values are escaped between quotation marks
(`tagContent`).  It is lexed as one piece (`lexes_tagContent`) and read as its name and attributes
(`readTag?_tagContent`), whatever the values are.
-/

namespace DirectoryExchange.Xml

/-- An attribute in a tag, behind the space that goes before it. -/
def writtenAttribute (a : String × String) : Bytes :=
  Bytes.space :: Utf8.encode a.1 ++
    equalsSign :: (doubleQuote :: Utf8.encode (escape a.2) ++ [doubleQuote])

/-- What stands between the brackets of a start tag. -/
def tagContent (name : Bytes) (attributes : List (String × String)) : Bytes :=
  name ++ attributes.flatMap writtenAttribute

/-- The key of an attribute that declares nothing. -/
structure Key (key : String) : Prop where
  /-- There is a key. -/
  ne : key ≠ ""
  /-- It consists of octets of names. -/
  word : IsWord key
  /-- It is none of the keys that declare a namespace. -/
  undeclared : ∀ value, declaration? (Utf8.encode key) value = some []

/-- An attribute with an escaped value, behind a space. -/
def escapedAttribute (key value : String) (key_ne : key ≠ "") (isWord_key : IsWord key) :
    WrittenAttribute where
  gap := ⟨[Bytes.space], List.forall_mem_singleton.2 rfl⟩
  key := key
  before := noGap
  behind := noGap
  quote := doubleQuote
  value := escaped value
  gap_ne := List.cons_ne_nil _ _
  key_ne := key_ne
  isWord_key := isWord_key
  isQuote_quote := rfl
  quote_not_mem := not_mem_encode_escape (by decide) value

/-- An attribute of the format is written with one space in front and quotation marks around its
value. -/
lemma octets_escapedAttribute {a : String × String} (ha : Key a.1) :
    (escapedAttribute a.1 a.2 ha.ne ha.word).octets = writtenAttribute a := by
  simp [escapedAttribute, noGap, WrittenAttribute.octets, WrittenAttribute.quoted,
    writtenAttribute, escaped, CharacterData.octets]

/-- Attributes with escaped values are written attributes. -/
lemma exists_writtenAttributes {attributes : List (String × String)}
    (h : ∀ a ∈ attributes, Key a.1) :
    ∃ written : List WrittenAttribute,
      written.flatMap WrittenAttribute.octets = attributes.flatMap writtenAttribute ∧
      written.map WrittenAttribute.meant = attributes ∧
      ∀ a ∈ written, declaration? a.raw.1 a.raw.2 = some [] := by
  induction attributes with
  | nil => exact ⟨[], rfl, rfl, by simp⟩
  | cons a attributes ih =>
    obtain ⟨ha, hattributes⟩ := List.forall_mem_cons.1 h
    obtain ⟨written, hoctets, hmeant, hundeclared⟩ := ih hattributes
    refine ⟨escapedAttribute a.1 a.2 ha.ne ha.word :: written, ?_, ?_, ?_⟩
    · rw [List.flatMap_cons, List.flatMap_cons, hoctets, octets_escapedAttribute ha]
    · rw [List.map_cons, hmeant]
      rfl
    · exact List.forall_mem_cons.2 ⟨ha.undeclared _, hundeclared⟩

/-- A written tag is one piece. -/
theorem lexes_tagContent {name : Bytes} (hne : name ≠ []) (hname : ∀ b ∈ name, isNameOctet b = true)
    {attributes : List (String × String)} (h : ∀ a ∈ attributes, Key a.1) (sofar : Bytes) :
    Lexes (.text sofar) (openBracket :: tagContent name attributes ++ [closeBracket])
      (dataOf sofar ++ [.startTag (tagContent name attributes) false]) (.text []) := by
  obtain ⟨written, hoctets, -, -⟩ := exists_writtenAttributes h
  have := lexes_startTag hname written noGap hne sofar
  rwa [writtenContent, hoctets, noGap, List.append_nil, ← tagContent] at this

/-- A written tag is read as its name and attributes. -/
theorem readTag?_tagContent {name : Bytes} (hname : ∀ b ∈ name, isNameOctet b = true)
    {attributes : List (String × String)} (h : ∀ a ∈ attributes, Key a.1)
    (hdistinct : (attributes.map (·.1)).Nodup) (elements : List OpenElement) :
    readTag? elements (tagContent name attributes) =
      some (⟨namespace? (bindingsWithin elements) (splitQualified name).1,
        Utf8.decodeLossy (splitQualified name).2, attributes⟩, ⟨name, []⟩) := by
  obtain ⟨written, hoctets, hmeant, hundeclared⟩ := exists_writtenAttributes h
  have hdeclared : declarations? (written.map WrittenAttribute.raw) = some [] := by
    rw [declarations?_eq hundeclared, List.flatMap_eq_nil_iff.2 fun _ _ => rfl]
  have hkeys : (written.map (·.key)).Nodup := by
    have hmap : attributes.map (·.1) = written.map (·.key) := by
      rw [← hmeant, List.map_map]
      rfl
    rwa [hmap] at hdistinct
  have hbindings : bindingsWithin (⟨name, []⟩ :: elements) = bindingsWithin elements := by
    rw [bindingsWithin, bindingsWithin, List.flatMap_cons, List.reverse_nil, List.nil_append]
  have := readTag?_writtenContent hname hkeys hdeclared noGap elements
  rwa [writtenContent, hoctets, noGap, List.append_nil, ← tagContent, hmeant, hbindings] at this

end DirectoryExchange.Xml

import DirectoryExchange.Proofs.Xml.WrittenTag
import Mathlib.Data.List.Nodup

/-!
# Tags and namespaces

A part in front of the colon of a name stands for the namespace that the nearest element around
the name declares for it (`WrittenTag.within`); that is how a tag is read (`readTag?_content`).
Names of namespaces are taken as they are written.
-/

namespace DirectoryExchange.Xml

/-! ### Declarations -/

/-- The key under which a namespace is declared for names with that part in front of the colon; the
empty part is that of names without a colon. -/
def declarationKey (word : String) : String := if word = "" then "xmlns" else "xmlns:" ++ word

/-- Whether the attribute, if it is a declaration, is one that is allowed: it is for some part other
than `xmlns`, and the namespace of markup itself is that of `xml` alone. -/
def WrittenAttribute.Allowed (a : WrittenAttribute) : Prop :=
  ∀ word, a.key = "xmlns:" ++ word → word ≠ "" ∧ word ≠ "xmlns" ∧
    (word = "xml" ↔ a.value.octets = xmlNamespace) ∧ a.value.octets ≠ xmlnsNamespace

-- The key says which part is declared, so that there is no need to look at every text.
instance (a : WrittenAttribute) : Decidable a.Allowed :=
  let word := Utf8.decodeLossy ((Utf8.encode a.key).drop 6)
  decidable_of_iff (a.key = "xmlns:" ++ word → word ≠ "" ∧ word ≠ "xmlns" ∧
      (word = "xml" ↔ a.value.octets = xmlNamespace) ∧ a.value.octets ≠ xmlnsNamespace) <| by
    refine ⟨fun h other hkey => ?_, fun h => h word⟩
    have hword : word = other := by
      have hdrop : (Utf8.encode a.key).drop 6 = Utf8.encode other := by
        rw [hkey, Utf8.encode_append]
        rfl
      rw [← Utf8.decodeLossy_encode other, ← hdrop]
    subst hword
    exact h hkey

/-- What the attribute declares. -/
def WrittenAttribute.declares (a : WrittenAttribute) : List Binding :=
  (declaration? a.raw.1 a.raw.2).getD []

lemma encode_xmlns : Utf8.encode "xmlns" = xmlns := by decide

lemma encode_colon : Utf8.encode "xmlns:" = xmlns ++ [0x3A] := by decide

/-- A declaration for names without a colon, one for other names, or an attribute that declares
nothing. -/
lemma key_cases (key : String) :
    key = "xmlns" ∨ (∃ word, key = "xmlns:" ++ word) ∨
      (key ≠ "xmlns" ∧ (xmlns ++ [0x3A]).isPrefixOf (Utf8.encode key) = false) := by
  by_cases hplain : key = "xmlns"
  · exact .inl hplain
  · cases hstart : (xmlns ++ [0x3A]).isPrefixOf (Utf8.encode key) with
    | false => exact .inr (.inr ⟨hplain, rfl⟩)
    | true =>
      obtain ⟨rest, hrest⟩ := List.isPrefixOf_iff_prefix.1 hstart
      rw [← encode_colon] at hrest
      obtain ⟨word, hword, -⟩ := Utf8.exists_append_of_encode hrest.symm
      exact .inr (.inl ⟨word, hword⟩)

/-- A prefix is declared by an attribute with the prefix in its name. -/
lemma declarationKey_eq_append {word : String} (hword : word ≠ "") :
    declarationKey word = "xmlns:" ++ word := if_neg hword

/-- The declaration of the default is not that of a prefix. -/
lemma ne_append (word : String) : "xmlns" ≠ "xmlns:" ++ word := by
  intro h
  have := congrArg String.length h
  rw [String.length_append] at this
  have hplain : "xmlns".length = 5 := rfl
  have hcolon : "xmlns:".length = 6 := rfl
  omega

/-- Each declaration is of one prefix. -/
lemma declarationKey_injective {word other : String}
    (h : declarationKey word = declarationKey other) : word = other := by
  unfold declarationKey at h
  split at h
  · next hword =>
    split at h
    · next hother => rw [hword, hother]
    · exact absurd h (ne_append other)
  · split at h
    · exact absurd h.symm (ne_append word)
    · exact (String.append_right_inj _).1 h

/-- The namespace that is declared with a key `xmlns:word`, unless it is not allowed. -/
lemma declaration?_append {word : String} {value : Bytes} (hempty : word ≠ "xmlns")
    (hmarkup : word = "xml" ↔ value = xmlNamespace) (hdeclarations : value ≠ xmlnsNamespace) :
    declaration? (Utf8.encode ("xmlns:" ++ word)) value =
      some (if word = "xml" then [] else [⟨Utf8.encode word, value⟩]) := by
  have hxml : Utf8.encode "xml" = xmlWord := by decide
  have hplain : Utf8.encode ("xmlns:" ++ word) ≠ xmlns := fun h =>
    ne_append word (Utf8.encode_injective (h.trans encode_xmlns.symm)).symm
  have hoctets : Utf8.encode ("xmlns:" ++ word) = (xmlns ++ [0x3A]) ++ Utf8.encode word := by
    rw [Utf8.encode_append, encode_colon]
  have hstart : (xmlns ++ [0x3A]).isPrefixOf (Utf8.encode ("xmlns:" ++ word)) = true :=
    List.isPrefixOf_iff_prefix.2 ⟨_, hoctets.symm⟩
  have hdrop : (Utf8.encode ("xmlns:" ++ word)).drop 6 = Utf8.encode word := by
    rw [hoctets]
    rfl
  rw [declaration?, if_neg hplain, if_pos hstart, hdrop]
  by_cases hword : word = "xml"
  · rw [hword, hxml]
    simp [hmarkup.1 hword]
  · have hother : Utf8.encode word ≠ xmlWord := fun h =>
      hword (Utf8.encode_injective (h.trans hxml.symm))
    have hxmlns : Utf8.encode word ≠ xmlns := fun h =>
      hempty (Utf8.encode_injective (h.trans encode_xmlns.symm))
    have hvalue : value ≠ xmlNamespace := fun h => hword (hmarkup.2 h)
    simp [hother, hxmlns, hvalue, hdeclarations, hword]

namespace WrittenAttribute

variable {a : WrittenAttribute}

/-- An attribute that is allowed has a key of a declaration, or it declares nothing. -/
lemma declaration?_cases (ha : a.Allowed) :
    (∃ word, a.key = declarationKey word ∧ declaration? a.raw.1 a.raw.2 =
        some (if word = "xml" then [] else [⟨Utf8.encode word, a.value.octets⟩])) ∨
      ((∀ word, a.key ≠ declarationKey word) ∧ declaration? a.raw.1 a.raw.2 = some []) := by
  rcases key_cases a.key with hkey | ⟨word, hkey⟩ | ⟨hplain, hstart⟩
  · refine .inl ⟨"", hkey, ?_⟩
    rw [declaration?, raw, hkey, encode_xmlns, if_pos rfl]
    rfl
  · obtain ⟨hempty, hxmlns, hmarkup, hdeclarations⟩ := ha word hkey
    refine .inl ⟨word, hkey.trans (declarationKey_eq_append hempty).symm, ?_⟩
    rw [raw, hkey]
    exact declaration?_append hxmlns hmarkup hdeclarations
  · refine .inr ⟨fun word hkey => ?_, ?_⟩
    · by_cases hempty : word = ""
      · rw [hempty] at hkey
        exact hplain hkey
      · rw [declarationKey_eq_append hempty] at hkey
        have hyes : (xmlns ++ [0x3A]).isPrefixOf (Utf8.encode a.key) = true := by
          rw [hkey, Utf8.encode_append, encode_colon]
          exact List.isPrefixOf_iff_prefix.2 ⟨_, rfl⟩
        rw [hyes] at hstart
        cases hstart
    · have hne : Utf8.encode a.key ≠ xmlns := fun h =>
        hplain (Utf8.encode_injective (h.trans encode_xmlns.symm))
      rw [declaration?, raw, if_neg hne, hstart, if_neg Bool.false_ne_true]

/-- An attribute that is allowed declares a namespace for the part that its key names, unless that
is `xml`. -/
lemma declaration?_raw (ha : a.Allowed) :
    declaration? a.raw.1 a.raw.2 = some a.declares ∧
      ∀ binding, binding ∈ a.declares ↔
        ∃ word, word ≠ "xml" ∧ a.key = declarationKey word ∧
          binding = ⟨Utf8.encode word, a.value.octets⟩ := by
  rcases declaration?_cases ha with ⟨word, hkey, hraw⟩ | ⟨hkey, hraw⟩
  · rw [declares, hraw, Option.getD_some]
    refine ⟨rfl, fun binding => ⟨fun hbinding => ?_, ?_⟩⟩
    · by_cases hxml : word = "xml"
      · rw [if_pos hxml] at hbinding
        exact absurd hbinding List.not_mem_nil
      · rw [if_neg hxml] at hbinding
        exact ⟨word, hxml, hkey, List.mem_singleton.1 hbinding⟩
    · rintro ⟨other, hxml, hother, rfl⟩
      obtain rfl : other = word := declarationKey_injective (hother.symm.trans hkey)
      rw [if_neg hxml]
      exact List.mem_singleton_self _
  · rw [declares, hraw, Option.getD_some]
    refine ⟨rfl, fun binding => ⟨fun h => absurd h List.not_mem_nil, ?_⟩⟩
    rintro ⟨word, -, hword, -⟩
    exact absurd hword (hkey word)

end WrittenAttribute

/-! ### Scopes -/

/-- The namespace for which each part in front of a colon stands, where the empty part is that of
names without a colon, and the empty namespace is none. -/
abbrev Scope := String → Bytes

/-- A text that may stand on either side of the colon of a name. -/
structure NamePart (text : String) : Prop where
  /-- It is not empty. -/
  ne : text ≠ ""
  /-- It consists of octets of names. -/
  word : IsWord text
  /-- There is no further colon. -/
  colon : ':' ∉ text.toList

instance (text : String) : Decidable (NamePart text) :=
  decidable_of_iff (text ≠ "" ∧ IsWord text ∧ ':' ∉ text.toList)
    ⟨fun h => ⟨h.1, h.2.1, h.2.2⟩, fun h => ⟨h.ne, h.word, h.colon⟩⟩

/-- A start tag as it is written. -/
structure WrittenTag where
  /-- The part of the name in front of the colon, if there is one. -/
  word : Option String
  /-- The part behind it, or the whole name. -/
  name : String
  /-- The attributes. -/
  attributes : List WrittenAttribute
  /-- The white space behind them. -/
  gap : Gap
  /-- What stands in front of the colon is part of a name, -/
  namePart_word : ∀ w ∈ word, NamePart w
  /-- and so is what stands behind it. -/
  namePart_name : NamePart name
  /-- No two attributes have the same key. -/
  distinct : (attributes.map (·.key)).Nodup
  /-- All declarations are allowed. -/
  allowed : ∀ a ∈ attributes, a.Allowed

namespace WrittenTag

/-- The name with its parts. -/
def qualified (t : WrittenTag) : Bytes :=
  match t.word with
  | some w => Utf8.encode w ++ 0x3A :: Utf8.encode t.name
  | none => Utf8.encode t.name

/-- What stands between the brackets. -/
def content (t : WrittenTag) : Bytes := writtenContent t.qualified t.attributes t.gap

/-- The namespaces within the element, itself included: what it does not declare is as it is around
it.  Nothing is declared for `xml`. -/
def within (t : WrittenTag) (scope : Scope) : Scope := fun word =>
  match t.attributes.find? fun a => a.key = declarationKey word with
  | some a => if word = "xml" then scope word else a.value.octets
  | none => scope word

/-- The tag as it is meant. -/
def tag (t : WrittenTag) (scope : Scope) : Tag :=
  let uri := t.within scope (t.word.getD "")
  ⟨if uri = [] then none else some uri, t.name, t.attributes.map WrittenAttribute.meant⟩

/-- The element that begins with the tag. -/
def element (t : WrittenTag) : OpenElement :=
  ⟨t.qualified, t.attributes.flatMap WrittenAttribute.declares⟩

end WrittenTag

/-- Whether the namespaces within the elements are these. -/
def Holds (elements : List OpenElement) (scope : Scope) : Prop :=
  ∀ word, (((bindingsWithin elements).find? fun b => b.word == Utf8.encode word).map
    Binding.uri).getD [] = scope word

lemma holds_nil : Holds [] fun _ => [] := fun _ => rfl

namespace WrittenTag

variable {t : WrittenTag} {elements : List OpenElement} {scope : Scope}

/-- The name of a tag is made of octets that names are made of. -/
lemma isNameOctet_qualified (t : WrittenTag) : ∀ b ∈ t.qualified, isNameOctet b = true := by
  intro b hb
  unfold qualified at hb
  split at hb
  · next w hw =>
    rcases List.mem_append.1 hb with hb | hb
    · exact (t.namePart_word w hw).word.octets b hb
    · rcases List.mem_cons.1 hb with rfl | hb
      · decide
      · exact t.namePart_name.word.octets b hb
  · exact t.namePart_name.word.octets b hb

/-- The name of a tag is not empty. -/
lemma qualified_ne (t : WrittenTag) : t.qualified ≠ [] := by
  unfold qualified
  split
  · simp
  · exact fun h => t.namePart_name.ne (Utf8.encode_eq_nil_iff.1 h)

/-- The name of a tag is split at its colon. -/
lemma splitQualified_qualified (t : WrittenTag) :
    splitQualified t.qualified = (t.word.map Utf8.encode, Utf8.encode t.name) := by
  have hcolon : ∀ {text}, NamePart text → 0x3A ∉ Utf8.encode text := by
    intro text h
    rw [Utf8.encode, Utf8.mem_encodeChars_iff (by decide)]
    exact h.colon
  rw [splitQualified, qualified]
  cases hword : t.word with
  | none =>
    have hcut : Bytes.cutAt? 0x3A (Utf8.encode t.name) = none := by
      cases h : Bytes.cutAt? 0x3A (Utf8.encode t.name) with
      | none => rfl
      | some parts =>
        obtain ⟨before, behind⟩ := parts
        have := Bytes.eq_append_of_cutAt? h
        exact absurd (by simp [this]) (hcolon t.namePart_name)
    simp only [hcut]
    rfl
  | some w =>
    simp only [Bytes.cutAt?_append (hcolon (t.namePart_word w hword))]
    rfl

/-- An element declares what the attributes of its tag say, but for the prefix `xml`. -/
lemma mem_declared {binding : Binding} :
    binding ∈ t.element.declared ↔ ∃ a ∈ t.attributes, ∃ word, word ≠ "xml" ∧
      a.key = declarationKey word ∧ binding = ⟨Utf8.encode word, a.value.octets⟩ := by
  rw [element, List.mem_flatMap]
  exact exists_congr fun a => and_congr_right fun ha =>
    (WrittenAttribute.declaration?_raw (t.allowed a ha)).2 binding

/-- The declaration for a part is found among those of the tag, -/
lemma find?_declared {a : WrittenAttribute} (ha : a ∈ t.attributes) {word : String}
    (hkey : a.key = declarationKey word) (hword : word ≠ "xml") :
    t.element.declared.reverse.find? (fun b => b.word == Utf8.encode word) =
      some ⟨Utf8.encode word, a.value.octets⟩ := by
  have hmem : ⟨Utf8.encode word, a.value.octets⟩ ∈ t.element.declared :=
    mem_declared.2 ⟨a, ha, word, hword, hkey, rfl⟩
  cases hfind : t.element.declared.reverse.find? fun b => b.word == Utf8.encode word with
  | none =>
    have := List.find?_eq_none.1 hfind _ (List.mem_reverse.2 hmem)
    simp at this
  | some binding =>
    obtain ⟨a', ha', word', -, hkey', rfl⟩ :=
      mem_declared.1 (List.mem_reverse.1 (List.mem_of_find?_eq_some hfind))
    obtain rfl : word' = word := Utf8.encode_injective (by simpa using List.find?_some hfind)
    obtain rfl : a' = a := List.inj_on_of_nodup_map t.distinct ha' ha (hkey'.trans hkey.symm)
    rfl

/-- and for no part that is not declared. -/
lemma find?_undeclared {word : String}
    (h : ∀ a ∈ t.attributes, a.key = declarationKey word → word = "xml") :
    t.element.declared.reverse.find? (fun b => b.word == Utf8.encode word) = none := by
  rw [List.find?_eq_none]
  intro binding hbinding hsame
  obtain ⟨a, ha, word', hword', hkey, rfl⟩ := mem_declared.1 (List.mem_reverse.1 hbinding)
  obtain rfl : word' = word := Utf8.encode_injective (by simpa using hsame)
  exact hword' (h a ha hkey)

/-- Within an element its declarations come first. -/
lemma holds_within (t : WrittenTag) (h : Holds elements scope) :
    Holds (t.element :: elements) (t.within scope) := by
  intro word
  have hbindings : bindingsWithin (t.element :: elements) =
      t.element.declared.reverse ++ bindingsWithin elements := rfl
  rw [hbindings, List.find?_append, within]
  cases hfind : t.attributes.find? fun a => a.key = declarationKey word with
  | none =>
    have hnone : t.element.declared.reverse.find? (fun b => b.word == Utf8.encode word) = none :=
      find?_undeclared fun a ha hkey =>
        absurd (decide_eq_true hkey) (List.find?_eq_none.1 hfind a ha)
    rw [hnone, Option.none_or]
    exact h word
  | some a =>
    have ha := List.mem_of_find?_eq_some hfind
    have hkey : a.key = declarationKey word := by simpa using List.find?_some hfind
    by_cases hword : word = "xml"
    · have hnone : t.element.declared.reverse.find? (fun b => b.word == Utf8.encode word) = none :=
        find?_undeclared fun _ _ _ => hword
      simp only [hnone, Option.none_or, if_pos hword]
      exact h word
    · rw [find?_declared ha hkey hword]
      simp only [if_neg hword]
      rfl

/-- A prefix stands for what the scope says, if that is anything. -/
lemma namespace?_eq (h : Holds elements scope) {word : Option String}
    (hword : ∀ w, word = some w → w ≠ "") :
    (namespace? (bindingsWithin elements) (word.map Utf8.encode)) =
      if scope (word.getD "") = [] then none else some (scope (word.getD "")) := by
  have hempty : word.map Utf8.encode ≠ some [] := by
    intro hsome
    obtain ⟨w, hw, hnil⟩ := Option.map_eq_some_iff.1 hsome
    exact hword w hw (Utf8.encode_eq_nil_iff.1 hnil)
  have hgetD : (word.map Utf8.encode).getD [] = Utf8.encode (word.getD "") := by
    cases word <;> rfl
  rw [← h, namespace?.eq_2 _ _ hempty, hgetD]
  cases (bindingsWithin elements).find? fun b => b.word == Utf8.encode (word.getD "") <;> simp

/-- A tag is read as it is meant. -/
theorem readTag?_content (t : WrittenTag) (h : Holds elements scope) :
    readTag? elements t.content = some (t.tag scope, t.element) := by
  have hdeclared := declarations?_eq fun a ha =>
    (WrittenAttribute.declaration?_raw (t.allowed a ha)).1
  have huri := namespace?_eq (t.holds_within h) fun w hw => (t.namePart_word w hw).ne
  rw [element] at huri
  rw [content, readTag?_writtenContent t.isNameOctet_qualified t.distinct hdeclared,
    splitQualified_qualified, Utf8.decodeLossy_encode, huri]
  rfl

end WrittenTag

end DirectoryExchange.Xml

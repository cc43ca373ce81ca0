import DirectoryExchange.Proofs.Traversal
import DirectoryExchange.Proofs.Xml.CharacterData
import DirectoryExchange.Proofs.Xml.Markup
import DirectoryExchange.Xml.Tag
import Mathlib.Data.Bool.AllAny

/-!
# Written tags

Attributes may be written with either quotation mark and with white space around their parts
(`WrittenAttribute`).  Whatever the spelling, a tag is lexed as one piece (`lexes_startTag`,
`lexes_emptyTag`) and read as its name and attributes (`readTag?_writtenContent`).
-/

namespace DirectoryExchange.Xml

/-! ### Names and white space -/

/-- Octets that may stand in names of elements and attributes. -/
def isNameOctet (b : UInt8) : Bool :=
  isBare b && !isGap b && b != equalsSign && b != slash && b != exclamationMark && b != questionMark

/-- An octet of a name does not end a tag. -/
lemma isBare_of_isNameOctet {b : UInt8} (h : isNameOctet b = true) : isBare b = true := by
  simp only [isNameOctet, Bool.and_eq_true] at h
  exact h.1.1.1.1.1

lemma isGap_of_isNameOctet {b : UInt8} (h : isNameOctet b = true) : isGap b = false := by
  simp only [isNameOctet, Bool.and_eq_true, Bool.not_eq_true'] at h
  exact h.1.1.1.1.2

lemma ne_equalsSign_of_isNameOctet {b : UInt8} (h : isNameOctet b = true) : b ≠ equalsSign := by
  simp only [isNameOctet, Bool.and_eq_true, bne_iff_ne] at h
  exact h.1.1.1.2

lemma ne_mark_of_isNameOctet {b : UInt8} (h : isNameOctet b = true) :
    b ≠ slash ∧ b ≠ exclamationMark ∧ b ≠ questionMark := by
  simp only [isNameOctet, Bool.and_eq_true, bne_iff_ne] at h
  exact ⟨h.1.1.2, h.1.2, h.2⟩

/-- Whether a text has only octets of names. -/
def IsWord (text : String) : Prop := (Utf8.encode text).all isNameOctet = true

-- Decided along the octets of the text; the quantifier below would be tried at every octet.
instance (text : String) : Decidable (IsWord text) := inferInstanceAs (Decidable (_ = true))

lemma IsWord.octets {text : String} (h : IsWord text) :
    ∀ b ∈ Utf8.encode text, isNameOctet b = true :=
  List.all_eq_true.1 h

/-- White space, of which there may be none. -/
abbrev Gap := { v : Bytes // ∀ b ∈ v, isGap b = true }

/-- No white space. -/
def noGap : Gap := ⟨[], List.forall_mem_nil _⟩

lemma gap_cases {b : UInt8} (h : isGap b = true) :
    b ∈ [Bytes.space, Bytes.tab, Bytes.lineFeed, Bytes.carriageReturn] := by
  simpa [isGap, or_assoc] using h

/-- White space neither ends a tag nor means anything in it. -/
lemma gap_facts : ∀ b ∈ [Bytes.space, Bytes.tab, Bytes.lineFeed, Bytes.carriageReturn],
    isBare b = true ∧ b ≠ equalsSign ∧ b ≠ slash ∧ isQuote b = false :=
  List.all_iff_forall_prop.1 (by decide)

lemma isBare_of_isGap {b : UInt8} (h : isGap b = true) : isBare b = true :=
  (gap_facts b (gap_cases h)).1

/-! ### Attributes -/

/-- An attribute as it is written, with the white space in front of it. -/
structure WrittenAttribute where
  /-- The white space in front. -/
  gap : Gap
  /-- The key. -/
  key : String
  /-- The white space between key and equals sign. -/
  before : Gap
  /-- The white space between equals sign and value. -/
  behind : Gap
  /-- The quotation mark on both sides of the value. -/
  quote : UInt8
  /-- The value. -/
  value : CharacterData
  /-- The attribute is kept apart from what stands in front of it. -/
  gap_ne : gap.1 ≠ []
  /-- There is a key. -/
  key_ne : key ≠ ""
  /-- It consists of octets of names. -/
  isWord_key : IsWord key
  /-- The quotation mark is one of the two. -/
  isQuote_quote : isQuote quote = true
  /-- The value does not end before it is over. -/
  quote_not_mem : quote ∉ value.octets

namespace WrittenAttribute

/-- What stands between the quotation marks, and the marks. -/
def quoted (a : WrittenAttribute) : Bytes := a.quote :: a.value.octets ++ [a.quote]

/-- The attribute as octets. -/
def octets (a : WrittenAttribute) : Bytes :=
  a.gap.1 ++ Utf8.encode a.key ++ a.before.1 ++ equalsSign :: (a.behind.1 ++ a.quoted)

/-- The key and the value, both as they are written. -/
def raw (a : WrittenAttribute) : Bytes × Bytes := (Utf8.encode a.key, a.value.octets)

/-- The key and the value as it is meant. -/
def meant (a : WrittenAttribute) : String × String := (a.key, a.value.meant)

/-- An attribute is read as what it means. -/
lemma readAttribute?_raw (a : WrittenAttribute) : readAttribute? a.raw = some a.meant := by
  simp [readAttribute?, raw, meant, a.value.unescape?_octets, Utf8.decodeLossy_encode]

/-- An attribute begins with white space. -/
lemma isGap_of_head? (a : WrittenAttribute) {rest : Bytes} {b : UInt8}
    (hb : (a.octets ++ rest).head? = some b) : isGap b = true := by
  obtain ⟨first, gap, hgap⟩ := List.exists_cons_of_ne_nil a.gap_ne
  have hfirst : first = b := by simpa [octets, hgap] using hb
  exact a.gap.2 b (by simp [hgap, hfirst])

/-! ### Lexing -/

/-- An attribute goes on with the tag, whatever stands in its value. -/
lemma lexes_octets (a : WrittenAttribute) (sofar : Bytes) :
    Lexes (.startTag none sofar) a.octets [] (.startTag none (a.octets.reverse ++ sofar)) := by
  have hbare : ∀ b ∈ a.gap.1 ++ Utf8.encode a.key ++ a.before.1 ++ equalsSign :: a.behind.1,
      isBare b = true := by
    intro b hb
    simp only [List.mem_append, List.mem_cons] at hb
    rcases hb with ((hb | hb) | hb) | rfl | hb
    · exact isBare_of_isGap (a.gap.2 b hb)
    · exact isBare_of_isNameOctet (a.isWord_key.octets b hb)
    · exact isBare_of_isGap (a.before.2 b hb)
    · rfl
    · exact isBare_of_isGap (a.behind.2 b hb)
  have hquoted := lexes_quoted a.isQuote_quote a.quote_not_mem
    ((a.gap.1 ++ Utf8.encode a.key ++ a.before.1 ++ equalsSign :: a.behind.1).reverse ++ sofar)
  have := (lexes_bare hbare sofar).append hquoted
  simpa [octets, quoted] using this

lemma lexes_attributes (attributes : List WrittenAttribute) (sofar : Bytes) :
    Lexes (.startTag none sofar) (attributes.flatMap octets) []
      (.startTag none ((attributes.flatMap octets).reverse ++ sofar)) := by
  induction attributes generalizing sofar with
  | nil => exact Lexes.nil _
  | cons a attributes ih =>
    have := (a.lexes_octets sofar).append (ih _)
    simpa using this

end WrittenAttribute

/-- What stands between the brackets of a start tag. -/
def writtenContent (name : Bytes) (attributes : List WrittenAttribute) (gap : Gap) : Bytes :=
  name ++ attributes.flatMap WrittenAttribute.octets ++ gap.1

/-- What ends neither of two parts does not end both together. -/
lemma getLast?_append_ne {v w : Bytes} {b : UInt8} (hv : v.getLast? ≠ some b)
    (hw : w.getLast? ≠ some b) : (v ++ w).getLast? ≠ some b := by
  rw [List.getLast?_append]
  cases hlast : w.getLast? with
  | none => rwa [Option.none_or]
  | some c => rwa [Option.some_or, ← hlast]

/-- Attributes do not end in a slash. -/
lemma getLast?_attributes (attributes : List WrittenAttribute) :
    (attributes.flatMap WrittenAttribute.octets).getLast? ≠ some slash := by
  induction attributes with
  | nil => simp
  | cons a attributes ih =>
    have hlast : a.octets.getLast? = some a.quote := by
      have hconcat : a.octets = (a.gap.1 ++ Utf8.encode a.key ++ a.before.1 ++
          equalsSign :: (a.behind.1 ++ a.quote :: a.value.octets)) ++ [a.quote] := by
        simp [WrittenAttribute.octets, WrittenAttribute.quoted]
      rw [hconcat, List.getLast?_concat]
    have hquote : a.quote ≠ slash := by
      intro h
      have := a.isQuote_quote
      rw [h] at this
      exact absurd this (by decide)
    rw [List.flatMap_cons]
    refine getLast?_append_ne ?_ ih
    rw [hlast]
    exact fun h => hquote (Option.some.inj h)

section Content

variable {name : Bytes} (hname : ∀ b ∈ name, isNameOctet b = true)
  (attributes : List WrittenAttribute) (gap : Gap)

include hname

/-- No part of a tag ends with a slash. -/
lemma getLast?_writtenContent : (writtenContent name attributes gap).getLast? ≠ some slash := by
  refine getLast?_append_ne (getLast?_append_ne ?_ (getLast?_attributes attributes)) ?_
  · exact fun h => (ne_mark_of_isNameOctet (hname _ (List.mem_of_getLast? h))).1 rfl
  · exact fun h => (gap_facts _ (gap_cases (gap.2 _ (List.mem_of_getLast? h)))).2.2.1 rfl

/-- A tag is one piece, whatever is put at its end outside quotation marks. -/
lemma lexes_writtenContent (hne : name ≠ []) {final : Bytes}
    (hfinal : ∀ b ∈ final, isBare b = true) (sofar : Bytes) :
    Lexes (.text sofar)
      (openBracket :: (writtenContent name attributes gap ++ final) ++ [closeBracket])
      (dataOf sofar ++ [tagOf (writtenContent name attributes gap ++ final).reverse])
      (.text []) := by
  obtain ⟨first, rest, rfl⟩ := List.exists_cons_of_ne_nil hne
  obtain ⟨hfirst, hrest⟩ := List.forall_mem_cons.1 hname
  obtain ⟨hslash, hexclamation, hquestion⟩ := ne_mark_of_isNameOctet hfirst
  have hword := lexes_bare (fun b hb => isBare_of_isNameOctet (hrest b hb)) [first]
  have hattributes := WrittenAttribute.lexes_attributes attributes (rest.reverse ++ [first])
  have hend : ∀ b ∈ gap.1 ++ final, isBare b = true := by
    intro b hb
    rcases List.mem_append.1 hb with hb | hb
    · exact isBare_of_isGap (gap.2 b hb)
    · exact hfinal b hb
  have hcontent : Lexes (.startTag none [first])
      (rest ++ attributes.flatMap WrittenAttribute.octets ++ (gap.1 ++ final)) []
      (.startTag none ((rest ++ attributes.flatMap WrittenAttribute.octets ++
        (gap.1 ++ final)).reverse ++ [first])) := by
    have := (hword.append hattributes).append (lexes_bare hend _)
    simpa using this
  have := lexes_tag (isBare_of_isNameOctet hfirst) (by simp [hslash, hexclamation, hquestion])
    hcontent sofar
  simpa [writtenContent] using this

/-- A start tag is one piece. -/
theorem lexes_startTag (hne : name ≠ []) (sofar : Bytes) :
    Lexes (.text sofar) (openBracket :: writtenContent name attributes gap ++ [closeBracket])
      (dataOf sofar ++ [.startTag (writtenContent name attributes gap) false]) (.text []) := by
  have hnone : ∀ b ∈ ([] : Bytes), isBare b = true := by simp
  have := lexes_writtenContent hname attributes gap hne hnone sofar
  rwa [List.append_nil, tagOf_of_last (getLast?_writtenContent hname attributes gap)] at this

/-- A tag that is start and end in one is one piece. -/
theorem lexes_emptyTag (hne : name ≠ []) (sofar : Bytes) :
    Lexes (.text sofar)
      (openBracket :: writtenContent name attributes gap ++ [slash, closeBracket])
      (dataOf sofar ++ [.startTag (writtenContent name attributes gap) true]) (.text []) := by
  have hbare : ∀ b ∈ [slash], isBare b = true := List.forall_mem_singleton.2 rfl
  have := lexes_writtenContent hname attributes gap hne hbare sofar
  rw [tagOf_slash] at this
  simpa using this

end Content

/-! ### Reading -/

section

variable {gap : Bytes} (hgap : ∀ b ∈ gap, isGap b = true)

include hgap

/-- White space between attributes is passed over. -/
lemma attributesFrom_gap (rest : Bytes) :
    attributesFrom .between (gap ++ rest) = attributesFrom .between rest := by
  induction gap with
  | nil => rfl
  | cons b gap ih =>
    obtain ⟨hb, hgap⟩ := List.forall_mem_cons.1 hgap
    rw [List.cons_append, attributesFrom, if_pos hb, ih hgap]

lemma attributesFrom_behindKey (key rest : Bytes) :
    attributesFrom (.behindKey key) (gap ++ equalsSign :: rest) =
      attributesFrom (.behindEquals key) rest := by
  induction gap with
  | nil => rw [List.nil_append, attributesFrom, if_pos rfl]
  | cons b gap ih =>
    obtain ⟨hb, hgap⟩ := List.forall_mem_cons.1 hgap
    rw [List.cons_append, attributesFrom, if_neg (gap_facts b (gap_cases hb)).2.1, if_pos hb,
      ih hgap]

/-- A key may have white space behind it. -/
lemma attributesFrom_key_gap (sofar rest : Bytes) :
    attributesFrom (.key sofar) (gap ++ equalsSign :: rest) =
      attributesFrom (.behindEquals sofar.reverse) rest := by
  cases gap with
  | nil => rw [List.nil_append, attributesFrom, if_pos rfl]
  | cons b gap =>
    obtain ⟨hb, hgap⟩ := List.forall_mem_cons.1 hgap
    rw [List.cons_append, attributesFrom, if_neg (gap_facts b (gap_cases hb)).2.1, if_pos hb,
      attributesFrom_behindKey hgap]

lemma attributesFrom_behindEquals {quote : UInt8} (hquote : isQuote quote = true)
    (key rest : Bytes) :
    attributesFrom (.behindEquals key) (gap ++ quote :: rest) =
      attributesFrom (.value key quote []) rest := by
  induction gap with
  | nil => rw [List.nil_append, attributesFrom, if_pos hquote]
  | cons b gap ih =>
    obtain ⟨hb, hgap⟩ := List.forall_mem_cons.1 hgap
    have hother : isQuote b = false := (gap_facts b (gap_cases hb)).2.2.2
    rw [List.cons_append, attributesFrom, hother, if_neg Bool.false_ne_true, if_pos hb, ih hgap]

end

/-- A key is read octet by octet. -/
lemma attributesFrom_key {v : Bytes} (h : ∀ b ∈ v, isNameOctet b = true) (sofar rest : Bytes) :
    attributesFrom (.key sofar) (v ++ rest) = attributesFrom (.key (v.reverse ++ sofar)) rest := by
  induction v generalizing sofar with
  | nil => rfl
  | cons b v ih =>
    obtain ⟨hb, hv⟩ := List.forall_mem_cons.1 h
    rw [List.cons_append, attributesFrom, if_neg (ne_equalsSign_of_isNameOctet hb),
      isGap_of_isNameOctet hb, if_neg Bool.false_ne_true, ih hv]
    simp

/-- A value is read up to its quotation mark. -/
lemma attributesFrom_value {quote : UInt8} {v : Bytes} (h : quote ∉ v) (key sofar rest : Bytes) :
    attributesFrom (.value key quote sofar) (v ++ quote :: rest) =
      (attributesFrom .between rest).map ((key, sofar.reverse ++ v) :: ·) := by
  induction v generalizing sofar with
  | nil => simp [attributesFrom]
  | cons b v ih =>
    rw [List.mem_cons, not_or] at h
    rw [List.cons_append, attributesFrom, if_neg (Ne.symm h.1), ih h.2]
    simp

/-- An attribute is found as it is written. -/
lemma attributesFrom_octets (a : WrittenAttribute) (rest : Bytes) :
    attributesFrom .between (a.octets ++ rest) =
      (attributesFrom .between rest).map (a.raw :: ·) := by
  obtain ⟨first, key, hkey⟩ := List.exists_cons_of_ne_nil
    fun hnil => a.key_ne (Utf8.encode_eq_nil_iff.1 hnil)
  have hword := a.isWord_key.octets
  rw [hkey] at hword
  obtain ⟨hfirst, hword⟩ := List.forall_mem_cons.1 hword
  have hoctets : a.octets ++ rest = a.gap.1 ++ first :: (key ++ (a.before.1 ++ equalsSign ::
      (a.behind.1 ++ a.quote :: (a.value.octets ++ a.quote :: rest)))) := by
    simp [WrittenAttribute.octets, WrittenAttribute.quoted, hkey]
  rw [hoctets, attributesFrom_gap a.gap.2, attributesFrom, isGap_of_isNameOctet hfirst,
    if_neg Bool.false_ne_true, attributesFrom_key hword, attributesFrom_key_gap a.before.2,
    attributesFrom_behindEquals a.behind.2 a.isQuote_quote,
    attributesFrom_value a.quote_not_mem, WrittenAttribute.raw, hkey]
  simp

/-- Attributes are found as they are written, whatever white space follows them. -/
lemma attributesFrom_attributes (attributes : List WrittenAttribute) (gap : Gap) :
    attributesFrom .between (attributes.flatMap WrittenAttribute.octets ++ gap.1) =
      some (attributes.map WrittenAttribute.raw) := by
  induction attributes with
  | nil =>
    have := attributesFrom_gap gap.2 []
    rwa [List.append_nil] at this
  | cons a attributes ih =>
    rw [List.flatMap_cons, List.append_assoc, attributesFrom_octets, ih, Option.map_some,
      List.map_cons]

/-- What attributes declare is what each of them does. -/
lemma declarations?_eq {attributes : List WrittenAttribute}
    {declares : WrittenAttribute → List Binding}
    (h : ∀ a ∈ attributes, declaration? a.raw.1 a.raw.2 = some (declares a)) :
    declarations? (attributes.map WrittenAttribute.raw) = some (attributes.flatMap declares) := by
  have hdeclared : ((attributes.map WrittenAttribute.raw).mapM fun p => declaration? p.1 p.2) =
      some (attributes.map declares) := by
    rw [mapM_eq_some_iff, List.map_map, List.map_map]
    exact List.map_congr_left h
  rw [declarations?, Option.bind_eq_bind, hdeclared, Option.bind_some, List.flatMap_def]
  rfl

/-- The name of a tag ends where white space begins. -/
lemma splitName_append {name rest : Bytes} (hname : ∀ b ∈ name, isNameOctet b = true)
    (hrest : ∀ b, rest.head? = some b → isGap b = true) :
    splitName (name ++ rest) = (name, rest) := by
  have hgap : ∀ b ∈ name, (!isGap b) = true := fun b hb => by
    rw [isGap_of_isNameOctet (hname b hb), Bool.not_false]
  have hstop : rest.takeWhile (fun b => !isGap b) = [] ∧
      rest.dropWhile (fun b => !isGap b) = rest := by
    cases rest with
    | nil => exact ⟨rfl, rfl⟩
    | cons b rest => simp [hrest b rfl]
  rw [splitName, List.takeWhile_append_of_pos hgap, List.dropWhile_append_of_pos hgap, hstop.1,
    hstop.2, List.append_nil]

/-- A written tag is read as its name and attributes, in the light of what these declare. -/
theorem readTag?_writtenContent {name : Bytes} (hname : ∀ b ∈ name, isNameOctet b = true)
    {attributes : List WrittenAttribute} (hdistinct : (attributes.map (·.key)).Nodup)
    {declared : List Binding}
    (hdeclared : declarations? (attributes.map WrittenAttribute.raw) = some declared) (gap : Gap)
    (elements : List OpenElement) :
    readTag? elements (writtenContent name attributes gap) =
      some (⟨namespace? (bindingsWithin (⟨name, declared⟩ :: elements)) (splitQualified name).1,
        Utf8.decodeLossy (splitQualified name).2, attributes.map WrittenAttribute.meant⟩,
        ⟨name, declared⟩) := by
  have hrest : ∀ b, (attributes.flatMap WrittenAttribute.octets ++ gap.1).head? = some b →
      isGap b = true := by
    intro b hb
    cases attributes with
    | nil => exact gap.2 b (List.mem_of_head? hb)
    | cons a attributes =>
      rw [List.flatMap_cons, List.append_assoc] at hb
      exact a.isGap_of_head? hb
  have hraw : rawAttributes? (attributes.flatMap WrittenAttribute.octets ++ gap.1) =
      some (attributes.map WrittenAttribute.raw) := by
    have hkeys : ((attributes.map WrittenAttribute.raw).map (·.1)).Nodup := by
      have hmap : (attributes.map WrittenAttribute.raw).map (·.1) =
          (attributes.map (·.key)).map Utf8.encode := by
        simp [WrittenAttribute.raw, Function.comp_def]
      rw [hmap]
      exact List.Pairwise.map _ (fun _ _ hne heq => hne (Utf8.encode_injective heq)) hdistinct
    have hguard : (guard ((attributes.map WrittenAttribute.raw).map (·.1)).Nodup : Option Unit) =
        some () := if_pos hkeys
    rw [rawAttributes?, attributesFrom_attributes attributes gap, Option.bind_eq_bind,
      Option.bind_some, hguard]
    rfl
  have hread : (attributes.map WrittenAttribute.raw).mapM readAttribute? =
      some (attributes.map WrittenAttribute.meant) := by
    rw [mapM_eq_some_iff, List.map_map, List.map_map]
    exact List.map_congr_left fun a _ => a.readAttribute?_raw
  rw [writtenContent, List.append_assoc]
  simp only [readTag?, splitName_append hname hrest, hraw, hdeclared, hread, Option.bind_eq_bind,
    Option.bind_some, pure]

end DirectoryExchange.Xml

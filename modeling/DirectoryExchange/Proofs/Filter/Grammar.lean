import DirectoryExchange.Proofs.Filter.Values
import DirectoryExchange.Proofs.Pieces
import DirectoryExchange.Proofs.Text.Blank

/-!
# The grammar of filters

A filter is written in brackets, as a sign and further filters or as the name of an attribute, with
white space around it, and a value (`Renders`).  There are other filters besides, by ordered
matches, parts of values or matching rules; `Complete` tells the texts that are such filters from
those of the filters that are supported (`complete_iff`), and `Breaks` holds of the texts of which
the parser sees that they make use of another match, whatever they are otherwise
(`Complete.breaks`).
-/

namespace DirectoryExchange.Filter

/-! ### Names -/

/-- The characters that may not stand in the name of an attribute. -/
def nameMarks : List Char := ['=', '~', '<', '>', ':', '(', ')']

/-- The signs that filters made from others begin with. -/
def signs : List Char := ['&', '|', '!']

/-- Whether the characters may stand before what ends the name of an attribute. -/
structure Label (label : List Char) : Prop where
  chars : ∀ c ∈ label, c ∉ nameMarks
  head : ∀ c, label.head? = some c → c ∉ signs

/-- How the name of an attribute is written: with any white space around it, but not without any
before it if it begins like a sign. -/
inductive RendersName : String → List Char → Prop
  | intro {left name right : List Char} (hname : name ≠ []) (hchars : ∀ c ∈ name, c ∉ nameMarks)
      (hends : Blank.Bare Blank.isBlank name) (hleft : ∀ c ∈ left, Blank.isBlank c = true)
      (hright : ∀ c ∈ right, Blank.isBlank c = true)
      (hsign : left = [] → ∀ c, name.head? = some c → c ∉ signs) :
      RendersName (String.ofList name) (left ++ name ++ right)

/-- The names are what is left of labels when the white space around them is dropped. -/
theorem rendersName_iff {name : String} {label : List Char} :
    RendersName name label ↔
      Label label ∧ Blank.trim (String.ofList label) = name ∧ name ≠ "" := by
  have hmarks : ∀ c ∈ nameMarks, Blank.isBlank c = false := List.all_iff_forall_prop.1 (by decide)
  have hsigns : ∀ c ∈ signs, Blank.isBlank c = false := List.all_iff_forall_prop.1 (by decide)
  have hnot : ∀ {blanks cs : List Char}, (∀ c ∈ blanks, Blank.isBlank c = true) →
      (∀ c ∈ cs, Blank.isBlank c = false) → ∀ c ∈ blanks, c ∉ cs := by
    intro blanks cs hblanks hcs c hc hmem
    have hblank := hblanks c hc
    rw [hcs c hmem] at hblank
    exact Bool.false_ne_true hblank
  constructor
  · rintro @⟨left, name, right, hname, hchars, hends, hleft, hright, hsign⟩
    refine ⟨⟨?_, ?_⟩, ?_, ?_⟩
    · exact List.forall_mem_append.2 ⟨List.forall_mem_append.2 ⟨hnot hleft hmarks, hchars⟩,
        hnot hright hmarks⟩
    · intro c hc
      cases left with
      | nil =>
        rw [List.nil_append, List.head?_append_of_ne_nil _ hname] at hc
        exact hsign rfl c hc
      | cons d left =>
        obtain rfl := Option.some.inj hc
        exact hnot hleft hsigns d List.mem_cons_self
    · rw [Blank.trim, String.toList_ofList,
        Blank.trimBy_eq_iff.2 ⟨hends, left, right, rfl, hleft, hright⟩]
    · exact fun hempty => hname (String.ofList_eq_empty_iff.1 hempty)
  · rintro ⟨⟨hchars, hhead⟩, rfl, hne⟩
    rw [Blank.trim, String.toList_ofList] at hne ⊢
    obtain ⟨hends, left, right, hlabel, hleft, hright⟩ :=
      Blank.trimBy_eq_iff.1 (rfl : Blank.trimBy Blank.isBlank label = _)
    generalize Blank.trimBy Blank.isBlank label = name at hne hends hlabel ⊢
    subst hlabel
    have hname : name ≠ [] := fun hnil => hne (by rw [hnil])
    refine .intro hname (fun c hc => hchars c ?_) hends hleft hright ?_
    · exact List.mem_append_left _ (List.mem_append_right _ hc)
    · rintro rfl c hc
      exact hhead c (by rwa [List.nil_append, List.head?_append_of_ne_nil _ hname])

/-! ### Filters -/

/-- How a filter that is a condition on one attribute is written. -/
inductive RendersItem (escapes : UInt8 → List Char → Prop) : Filter → List Char → Prop
  /-- The asterisk stands for any value. -/
  | present {name : String} {label : List Char} (hname : RendersName name label) :
      RendersItem escapes (.present name) (label ++ ['=', '*'])
  /-- The value behind the equals sign. -/
  | equal {name : String} {label raw : List Char} {value : Bytes} (hname : RendersName name label)
      (hvalue : Spells escapes value (Utf8.encodeChars raw)) :
      RendersItem escapes (.equal name value) (label ++ '=' :: raw)

/-- What combines filters, and the sign for it. -/
inductive Combines : (List Filter → Filter) → Char → Prop
  | and : Combines .and '&'
  | or : Combines .or '|'

/-- The text in brackets. -/
def bracketed (inner : List Char) : List Char := '(' :: (inner ++ [')'])

lemma bracketed_injective : Function.Injective bracketed := fun _ _ h =>
  List.append_cancel_right (List.cons.inj h).2

/-- How a filter is written, if `escapes` says what may stand behind a backslash. -/
inductive Renders (escapes : UInt8 → List Char → Prop) : Filter → List Char → Prop
  /-- The filters to combine one behind the other, of which there has to be one. -/
  | listed {combine : List Filter → Filter} {sign : Char} {parts : List (Filter × List Char)}
      (hsign : Combines combine sign) (hparts : parts ≠ [])
      (h : ∀ part ∈ parts, Renders escapes part.1 part.2) :
      Renders escapes (combine (parts.map (·.1))) (bracketed (sign :: parts.flatMap (·.2)))
  | not {filter : Filter} {text : List Char} (h : Renders escapes filter text) :
      Renders escapes (.not filter) (bracketed ('!' :: text))
  | item {filter : Filter} {text : List Char} (h : RendersItem escapes filter text) :
      Renders escapes filter (bracketed text)

section

variable {escapes escapes' : UInt8 → List Char → Prop} {filter : Filter} {text : List Char}

/-- A text that renders a filter still does if what stands behind backslashes in it is allowed. -/
theorem Renders.mono (h : Renders escapes filter text)
    (hmono : ∀ value raw, raw <:+: text → Spells escapes value (Utf8.encodeChars raw) →
      Spells escapes' value (Utf8.encodeChars raw)) : Renders escapes' filter text := by
  have hinner : ∀ {inner : List Char}, inner <:+: bracketed inner := fun {inner} =>
    ⟨['('], [')'], rfl⟩
  induction h with
  | @listed combine sign parts hsign hparts _ ih =>
    refine .listed hsign hparts fun part hpart => ih part hpart fun value raw hraw => ?_
    obtain ⟨before, behind, rfl⟩ := List.append_of_mem hpart
    have hpart : part.2 <:+: bracketed (sign :: (before ++ part :: behind).flatMap (·.2)) := by
      refine List.IsInfix.trans ?_ hinner
      refine ⟨sign :: before.flatMap (·.2), behind.flatMap (·.2), ?_⟩
      simp
    exact hmono value raw (hraw.trans hpart)
  | not _ ih =>
    refine .not (ih fun value raw hraw => hmono value raw (hraw.trans ?_))
    exact (List.suffix_cons _ _).isInfix.trans hinner
  | item h =>
    cases h with
    | present hname => exact .item (.present hname)
    | @equal name label raw value hname hvalue =>
      refine .item (.equal hname (hmono value raw ?_ hvalue))
      refine List.IsInfix.trans ?_ hinner
      exact ((List.suffix_cons _ _).trans (List.suffix_append _ _)).isInfix

/-- Every filter that is rendered is what the parser takes for one. -/
lemma Renders.accepted (h : Renders TwoDigits filter text) : Renders Accepted filter text :=
  h.mono fun _ _ _ hvalue => hvalue.mono fun _ _ => .inl

/-- Without a plus sign behind a backslash every octet that is escaped has its two digits. -/
theorem Renders.strict (h : Renders Accepted filter text) (hplus : ¬ ['\\', '+'] <:+: text) :
    Renders TwoDigits filter text :=
  h.mono fun _ _ hraw hvalue => hvalue.strict fun h => hplus (h.trans hraw)

/-- A filter stands in brackets. -/
lemma Renders.exists_bracketed (h : Renders escapes filter text) :
    ∃ inner, text = bracketed inner := by
  cases h with
  | listed => exact ⟨_, rfl⟩
  | not => exact ⟨_, rfl⟩
  | item => exact ⟨_, rfl⟩

end

/-! ### Filters with other matches -/

/-- How a condition on an attribute that uses another kind of match is written. -/
inductive OtherItem : List Char → Prop
  /-- An approximate or an ordered match. -/
  | ordered {name : String} {label raw : List Char} {mark : Char} {value : Bytes}
      (hname : RendersName name label) (hmark : mark ∈ ['~', '<', '>'])
      (hvalue : Spells TwoDigits value (Utf8.encodeChars raw)) :
      OtherItem (label ++ mark :: '=' :: raw)
  /-- Parts of a value between asterisks. -/
  | substring {name : String} {label raw : List Char} {values : List Bytes}
      (hname : RendersName name label) (hmany : 1 < values.length) (hnot : raw ≠ ['*'])
      (hvalues : Separated '*'
        (fun value piece => Spells TwoDigits value (Utf8.encodeChars piece)) values raw) :
      OtherItem (label ++ '=' :: raw)
  /-- A match by a rule, which may stand in the place of the name. -/
  | extensible {label raw : List Char} {words : List (List Char)} {value : Bytes}
      (hlabel : Label label) (hsome : words ≠ [] ∨ ∃ name, RendersName name label)
      (hwords : ∀ word ∈ words, word ≠ [] ∧ ∀ c ∈ word, c ∉ nameMarks)
      (hvalue : Spells TwoDigits value (Utf8.encodeChars raw)) :
      OtherItem (label ++ words.flatMap (':' :: ·) ++ ':' :: '=' :: raw)

/-- The texts of all filters, with whether another kind of match is used. -/
inductive Complete : Bool → List Char → Prop
  | listed {combine : List Filter → Filter} {sign : Char} {parts : List (Bool × List Char)}
      (hsign : Combines combine sign) (hparts : parts ≠ [])
      (h : ∀ part ∈ parts, Complete part.1 part.2) :
      Complete (parts.any (·.1)) (bracketed (sign :: parts.flatMap (·.2)))
  | not {other : Bool} {text : List Char} (h : Complete other text) :
      Complete other (bracketed ('!' :: text))
  | item {filter : Filter} {text : List Char} (h : RendersItem TwoDigits filter text) :
      Complete false (bracketed text)
  | other {text : List Char} (h : OtherItem text) : Complete true (bracketed text)

/-- The beginnings of conditions by which the parser knows another kind of match. -/
inductive OtherMatch : List Char → Prop
  | extensible {label rest : List Char} (hlabel : Label label) : OtherMatch (label ++ ':' :: rest)
  | ordered {name : String} {label rest : List Char} {mark : Char} (hname : RendersName name label)
      (hmark : mark ∈ ['~', '<', '>']) : OtherMatch (label ++ mark :: '=' :: rest)
  | substring {name : String} {label raw rest : List Char} (hname : RendersName name label)
      (hraw : ∀ c ∈ raw, c ∉ ['(', ')']) (hstar : '*' ∈ raw) (hnot : raw ≠ ['*']) :
      OtherMatch (label ++ '=' :: (raw ++ rest))

/-- The texts in which the parser meets another kind of match behind filters that it can read. -/
inductive Breaks : List Char → Prop
  | item {text : List Char} (h : OtherMatch text) : Breaks ('(' :: text)
  | not {text : List Char} (h : Breaks text) : Breaks ('(' :: '!' :: text)
  | listed {combine : List Filter → Filter} {sign : Char} {parts : List (Filter × List Char)}
      {text : List Char} (hsign : Combines combine sign)
      (hparts : ∀ part ∈ parts, Renders Accepted part.1 part.2) (h : Breaks text) :
      Breaks ('(' :: sign :: (parts.flatMap (·.2) ++ text))

/-- What stands behind the other kind of match does not matter. -/
lemma Breaks.append {text : List Char} (h : Breaks text) (rest : List Char) :
    Breaks (text ++ rest) := by
  induction h with
  | item h =>
    cases h with
    | extensible hlabel =>
      rw [List.cons_append, List.append_assoc]
      exact .item (.extensible hlabel)
    | ordered hname hmark =>
      rw [List.cons_append, List.append_assoc]
      exact .item (.ordered hname hmark)
    | substring hname hraw hstar hnot =>
      rw [List.cons_append, List.append_assoc, List.cons_append, List.append_assoc]
      exact .item (.substring hname hraw hstar hnot)
  | not _ ih => exact .not ih
  | listed hsign hparts _ ih =>
    rw [List.cons_append, List.cons_append, List.append_assoc]
    exact .listed hsign hparts ih

/-- Another match is met behind an opening bracket. -/
lemma Breaks.head? {text : List Char} (h : Breaks text) : text.head? = some '(' := by
  cases h <;> rfl

/-- Parts of a value are made of characters other than brackets. -/
lemma not_mem_of_separated {values : List Bytes} {raw : List Char}
    (h : Separated '*' (fun value piece => Spells TwoDigits value (Utf8.encodeChars piece))
      values raw) : ∀ c ∈ raw, c ∉ ['(', ')'] := by
  have hpiece : ∀ {value : Bytes} {piece : List Char},
      Spells TwoDigits value (Utf8.encodeChars piece) → ∀ c ∈ piece, c ∉ ['(', ')'] := by
    intro value piece hspells c hc hmark
    refine (spells_iff.1 (hspells.mono fun _ _ => .inl)).2 c hc ?_
    exact List.mem_append_left ['*'] hmark
  induction h with
  | last h => exact hpiece h
  | cons h _ ih =>
    exact List.forall_mem_append.2 ⟨hpiece h, List.forall_mem_cons.2 ⟨by decide, ih⟩⟩

/-- A condition that uses another kind of match begins like one. -/
lemma OtherItem.otherMatch {text : List Char} (h : OtherItem text) (rest : List Char) :
    OtherMatch (text ++ rest) := by
  cases h with
  | ordered hname hmark _ =>
    rw [List.append_assoc]
    exact .ordered hname hmark
  | substring hname hmany hnot hvalues =>
    rw [List.append_assoc]
    refine .substring hname (not_mem_of_separated hvalues) ?_ hnot
    cases hvalues with
    | last _ => exact absurd hmany (lt_irrefl 1)
    | cons _ _ => exact List.mem_append_right _ List.mem_cons_self
  | @extensible label raw words value hlabel _ _ _ =>
    rw [List.append_assoc, List.append_assoc]
    cases words with
    | nil => exact .extensible hlabel
    | cons word words => exact .extensible hlabel

/-- Filters that are rendered one by one are rendered as a list. -/
lemma exists_filters {parts : List (Bool × List Char)}
    (h : ∀ part ∈ parts, ∃ filter, Renders TwoDigits filter part.2) :
    ∃ filters : List (Filter × List Char), filters.map (·.2) = parts.map (·.2) ∧
      ∀ part ∈ filters, Renders TwoDigits part.1 part.2 := by
  have : Nonempty Filter := ⟨.present ""⟩
  choose! filterOf hfilterOf using h
  refine ⟨parts.map fun part => (filterOf part, part.2), ?_, List.forall_mem_map.2 hfilterOf⟩
  rw [List.map_map]
  rfl

/-- A text without another match is a filter that is supported. -/
lemma Complete.exists_renders {other : Bool} {text : List Char} (h : Complete other text)
    (hother : other = false) : ∃ filter, Renders TwoDigits filter text := by
  induction h with
  | @listed combine sign parts hsign hparts _ ih =>
    obtain ⟨filters, htexts, hfilters⟩ := exists_filters fun part hpart =>
      ih part hpart (Bool.eq_false_iff.2 (List.any_eq_false.1 hother part hpart))
    have hne : filters ≠ [] := by
      rintro rfl
      exact hparts (List.map_eq_nil_iff.1 htexts.symm)
    rw [List.flatMap_def, ← htexts, ← List.flatMap_def]
    exact ⟨_, .listed hsign hne hfilters⟩
  | not _ ih =>
    obtain ⟨filter, h⟩ := ih hother
    exact ⟨_, .not h⟩
  | item h => exact ⟨_, .item h⟩
  | other _ => exact absurd hother (Bool.false_ne_true ∘ Eq.symm)

/-- The texts that are filters and use no other kind of match are those that render a filter. -/
theorem complete_iff {text : List Char} :
    Complete false text ↔ ∃ filter, Renders TwoDigits filter text := by
  refine ⟨fun h => h.exists_renders rfl, ?_⟩
  rintro ⟨filter, h⟩
  induction h with
  | @listed combine sign parts hsign hparts _ ih =>
    have hcomplete := Complete.listed hsign
      (mt List.map_eq_nil_iff.1 hparts : parts.map (fun part => (false, part.2)) ≠ [])
      (List.forall_mem_map.2 ih)
    have hnone : (parts.map fun part => (false, part.2)).any (·.1) = false :=
      List.any_eq_false.2 (List.forall_mem_map.2 fun _ _ => Bool.false_ne_true)
    rwa [hnone, List.flatMap_map] at hcomplete
  | not _ ih => exact .not ih
  | item h => exact .item h

/-- A filter of any kind stands in brackets. -/
lemma Complete.exists_bracketed {other : Bool} {text : List Char} (h : Complete other text) :
    ∃ inner, text = bracketed inner := by
  cases h <;> exact ⟨_, rfl⟩

/-- In a filter that uses another kind of match the parser meets it. -/
theorem Complete.breaks {text : List Char} (h : Complete true text) : Breaks text := by
  generalize hother : true = other at h
  induction h with
  | @listed combine sign parts hsign _ h ih =>
    obtain ⟨first, hfirst⟩ : ∃ first, parts.find? (·.1) = some first :=
      Option.isSome_iff_exists.1 (by rw [List.find?_isSome]; simpa using hother.symm)
    obtain ⟨hmatch, before, behind, rfl, hbefore⟩ := List.find?_eq_some_iff_append.1 hfirst
    obtain ⟨filters, htexts, hfilters⟩ := exists_filters fun part hpart =>
      (h part (List.mem_append_left _ hpart)).exists_renders (by simpa using hbefore part hpart)
    have hbreaks : Breaks first.2 :=
      ih first (List.mem_append_right _ List.mem_cons_self) hmatch.symm
    rw [bracketed, List.flatMap_append, List.flatMap_cons, List.flatMap_def, ← htexts,
      ← List.flatMap_def, List.cons_append, List.append_assoc, List.append_assoc]
    exact .listed hsign (fun part hpart => (hfilters part hpart).accepted) (hbreaks.append _)
  | not _ ih => exact .not ((ih hother).append _)
  | item _ => exact absurd hother (Bool.false_ne_true ∘ Eq.symm)
  | other h => exact .item (h.otherMatch _)

end DirectoryExchange.Filter

import DirectoryExchange.Proofs.Dn.Join
import DirectoryExchange.Proofs.Text.Utf8

/-!
# Names taken apart

A name is split at its first comma that stands for itself, which may be looked for among its octets
as well (`cutOctetsAtComma_encodeChars`).  The parts are trimmed, and so they are names again unless
the white space at the end of the first or the last part was escaped.  Then the first part is parsed
as the first relative name and the rest as the others, and put together they are the name again
(`splitFirst_parses`).
-/

namespace DirectoryExchange.Dn

/-! ### Elements -/

/-- The elements of a text: its characters, and its escapes as they are written. -/
def elements : List Char → List (List Char)
  | [] => []
  | c :: rest =>
    if c = '\\' then
      match rest with
      | [] => [[c]]
      | e :: rest =>
        if e ∈ specials then [c, e] :: elements rest
        else
          match rest with
          | [] => [[c, e]]
          | f :: rest => [c, e, f] :: elements rest
    else [c] :: elements rest

/-- The parts of a name, each with its elements. -/
def parts (dn : String) : List (List (List Char)) := pieces (· == [',']) (elements dn.toList)

/-- Whether the element is white space that is not escaped. -/
def isBlankElement (element : List Char) : Bool := element.length == 1 && element.all Blank.isBlank

/-- Whether an escaped space is the last element apart from white space that is not escaped. -/
def EndsInEscapedSpace (part : List (List Char)) : Prop :=
  (part.reverse.dropWhile isBlankElement).head? = some ['\\', ' ']

instance (part : List (List Char)) : Decidable (EndsInEscapedSpace part) :=
  inferInstanceAs (Decidable (_ = _))

lemma elements_plain {c : Char} (hc : c ≠ '\\') (cs : List Char) :
    elements (c :: cs) = [c] :: elements cs := by
  rw [elements.eq_def]
  simp only [if_neg hc]

lemma elements_special {e : Char} (he : e ∈ specials) (cs : List Char) :
    elements ('\\' :: e :: cs) = ['\\', e] :: elements cs := by
  rw [elements.eq_def]
  simp only [if_true, if_pos he]

lemma elements_octet {e : Char} (he : e ∉ specials) (f : Char) (cs : List Char) :
    elements ('\\' :: e :: f :: cs) = ['\\', e, f] :: elements cs := by
  rw [elements.eq_def]
  simp only [if_true, if_neg he]

/-- Behind whole tokens the elements of what follows stand by themselves. -/
lemma Tokenizes.elements_append {a : List Char} {ts : List Token} (h : Tokenizes a ts)
    (b : List Char) : elements (a ++ b) = elements a ++ elements b := by
  induction h with
  | nil => rfl
  | plain hc _ ih =>
    rw [List.cons_append, elements_plain hc, elements_plain hc, ih, List.cons_append]
  | special he _ ih =>
    rw [List.cons_append, List.cons_append, elements_special he, elements_special he, ih,
      List.cons_append]
  | octet he _ _ ih =>
    rw [List.cons_append, List.cons_append, List.cons_append, elements_octet he, elements_octet he,
      ih, List.cons_append]

/-- A comma that stands for itself is a token where it is an element. -/
lemma Tokenizes.comma_not_mem_elements {cs : List Char} {ts : List Token} (h : Tokenizes cs ts)
    (hcomma : .plain ',' ∉ ts) : [','] ∉ elements cs := by
  induction h with
  | nil => exact List.not_mem_nil
  | plain hc _ ih =>
    rw [List.mem_cons, not_or] at hcomma
    rw [elements_plain hc, List.mem_cons, not_or]
    refine ⟨fun heq => hcomma.1 ?_, ih hcomma.2⟩
    rw [(List.cons.inj heq).1]
  | special he _ ih =>
    rw [List.mem_cons, not_or] at hcomma
    rw [elements_special he, List.mem_cons, not_or]
    exact ⟨nofun, ih hcomma.2⟩
  | octet he _ _ ih =>
    rw [List.mem_cons, not_or] at hcomma
    rw [elements_octet he, List.mem_cons, not_or]
    exact ⟨nofun, ih hcomma.2⟩

/-- A text without a comma that stands for itself is one part. -/
lemma parts_of_tokenizes {text : String} {ts : List Token} (h : Tokenizes text.toList ts)
    (hcomma : .plain ',' ∉ ts) : parts text = [elements text.toList] :=
  pieces_of_not_mem (h.comma_not_mem_elements hcomma)

/-- The parts of a name with a comma in it are those on its sides. -/
lemma parts_of_append {dn first parent : String} {ts : List Token}
    (hdn : dn.toList = first.toList ++ ',' :: parent.toList) (h : Tokenizes first.toList ts) :
    parts dn = parts first ++ parts parent := by
  rw [parts, hdn, h.elements_append, elements_plain (by decide), pieces_append_cons (by simp),
    parts, parts]

/-! ### Escaped spaces -/

/-- White space that is not escaped has an element for every character. -/
lemma elements_blanks {cs : List Char} (h : ∀ c ∈ cs, Blank.isBlank c = true) :
    elements cs = cs.map fun c => [c] := by
  induction cs with
  | nil => rfl
  | cons c cs ih =>
    obtain ⟨hc, hcs⟩ := List.forall_mem_cons.1 h
    rw [elements_plain (ne_backslash_of_isBlank hc), ih hcs, List.map_cons]

/-- An escaped space with nothing but white space behind it ends the elements. -/
lemma endsInEscapedSpace_append {blanks : List Char} (h : ∀ c ∈ blanks, Blank.isBlank c = true)
    (front : List (List Char)) :
    EndsInEscapedSpace (front ++ ['\\', ' '] :: blanks.map fun c => [c]) := by
  rw [EndsInEscapedSpace, List.reverse_append, List.reverse_cons, List.append_assoc,
    List.dropWhile_append_of_pos]
  · rfl
  · intro element hmem
    obtain ⟨c, hc, rfl⟩ := List.mem_map.1 (List.mem_reverse.1 hmem)
    simp [isBlankElement, h c hc]

/-- Only an escaped space is left dangling where a text is trimmed. -/
lemma exists_elements_of_dangles {text : String} {ts : List Token} (h : Tokenizes text.toList ts)
    (hdangles : dangles (Blank.trim text).toList = true) :
    ∃ (front : List (List Char)) (blanks : List Char), (∀ c ∈ blanks, Blank.isBlank c = true) ∧
      elements text.toList = front ++ ['\\', ' '] :: blanks.map fun c => [c] := by
  obtain ⟨left, right, hchars, hleft, hright⟩ := Blank.exists_around_trim text
  obtain ⟨inner, hinner, hwhole⟩ := eq_append_of_dangles hdangles
  rw [hinner] at hchars
  simp only [List.append_assoc, List.singleton_append] at hchars
  rw [hchars] at h ⊢
  obtain ⟨tb, rfl, htb⟩ := h.drop_plain fun c hc => ne_backslash_of_isBlank (hleft c hc)
  obtain ⟨ti, te, rfl, hti, hte⟩ := htb.cut (by decide) hwhole
  -- what the backslash escapes is white space
  obtain ⟨blanks, rfl⟩ : ∃ blanks, right = ' ' :: blanks := by
    cases hte with
    | plain hc _ => exact absurd rfl hc
    | @special e blanks _ he _ =>
      have hspecials : specials.all (fun e => !Blank.isBlank e || e == ' ') = true := by decide
      have hspace := List.all_eq_true.1 hspecials e he
      rw [hright e List.mem_cons_self, Bool.not_true, Bool.false_or, beq_iff_eq] at hspace
      obtain rfl := hspace
      exact ⟨blanks, rfl⟩
    | @octet e f octet blanks _ he hoctet _ =>
      have hdigit := (ne_backslash_of_octet? hoctet).2.2.1
      exact absurd (value?_of_isBlank (hright e List.mem_cons_self)) hdigit
  have hblanks : ∀ c ∈ blanks, Blank.isBlank c = true :=
    fun c hc => hright c (List.mem_cons_of_mem _ hc)
  refine ⟨elements (left ++ inner), blanks, hblanks, ?_⟩
  rw [← List.append_assoc, ((tokenizes_blanks hleft).append hti).elements_append,
    elements_special (by decide), elements_blanks hblanks]

/-- A name whose last part is not trimmed amiss is the same name when it is trimmed. -/
lemma parse?_trim_of_parts {text : String} {rdns : List Rdn} (h : parse? text = some rdns)
    (hend : ∀ part ∈ (parts text).getLast?, ¬ EndsInEscapedSpace part) :
    parse? (Blank.trim text) = some rdns := by
  rcases parse?_trim h with ⟨htrim, -⟩ | ⟨-, hdangles⟩
  · exact htrim
  · rcases parse?_eq_some_iff.1 h with ⟨hblank, -⟩ | ⟨ts, hts, -⟩
    · rw [hblank] at hdangles
      exact absurd hdangles (by decide)
    · obtain ⟨front, blanks, hblanks, helements⟩ := exists_elements_of_dangles hts hdangles
      have hnone : ∀ y ∈ ['\\', ' '] :: blanks.map fun c => [c], (y == [',']) = false := by
        refine List.forall_mem_cons.2 ⟨by decide, fun y hy => ?_⟩
        obtain ⟨c, hc, rfl⟩ := List.mem_map.1 hy
        refine beq_false_of_ne fun heq => ?_
        rw [List.singleton_inj] at heq
        exact absurd (hblanks c hc) (by rw [heq]; decide)
      obtain ⟨others, last, -, hlast⟩ := pieces_append_right hnone front
      refine absurd (endsInEscapedSpace_append hblanks last) (hend _ ?_)
      rw [parts, helements, hlast, List.getLast?_concat]
      exact rfl

/-! ### The cut among octets -/

/-- The octets in front of the first comma that is not behind a backslash, and those behind it if
there is one.  Of what a backslash escapes the first octet is passed over. -/
def cutOctetsAtComma : Bytes → Bytes × Option Bytes
  | [] => ([], none)
  | b :: rest =>
    if b = 0x2C then ([], some rest)
    else if b = 0x5C then
      match rest with
      | [] => ([b], none)
      | e :: rest =>
        let (before, behind) := cutOctetsAtComma rest
        (b :: e :: before, behind)
    else
      let (before, behind) := cutOctetsAtComma rest
      (b :: before, behind)

lemma cutOctetsAtComma_comma (v : Bytes) : cutOctetsAtComma (0x2C :: v) = ([], some v) := by
  rw [cutOctetsAtComma.eq_def]
  rfl

lemma cutOctetsAtComma_escape (e : UInt8) (v : Bytes) : cutOctetsAtComma (0x5C :: e :: v) =
    (0x5C :: e :: (cutOctetsAtComma v).1, (cutOctetsAtComma v).2) := by
  rw [cutOctetsAtComma.eq_def]
  rfl

/-- Octets that are neither a comma nor a backslash are passed over. -/
lemma cutOctetsAtComma_append {v : Bytes} (h : ∀ b ∈ v, b ≠ 0x2C ∧ b ≠ 0x5C) (w : Bytes) :
    cutOctetsAtComma (v ++ w) = (v ++ (cutOctetsAtComma w).1, (cutOctetsAtComma w).2) := by
  induction v with
  | nil => rfl
  | cons b v ih =>
    obtain ⟨⟨hcomma, hbackslash⟩, hv⟩ := List.forall_mem_cons.1 h
    rw [List.cons_append, cutOctetsAtComma.eq_def]
    simp only [if_neg hcomma, if_neg hbackslash, ih hv, List.cons_append]

/-- The octets of a character behind its first one are neither a comma nor a backslash. -/
lemma exists_encodeChar_eq_cons (c : Char) :
    ∃ b v, Utf8.encodeChar c = b :: v ∧ ∀ x ∈ v, x ≠ 0x2C ∧ x ≠ 0x5C := by
  by_cases hc : c.toNat < 0x80
  · exact ⟨_, [], Utf8.encodeChar_of_ascii hc, nofun⟩
  · obtain ⟨b, v, hcons⟩ := List.exists_cons_of_ne_nil (Utf8.encodeChar_ne_nil c)
    refine ⟨b, v, hcons, fun x hx => ?_⟩
    have hlarge : 0x80 ≤ x.toNat :=
      Utf8.le_of_mem_encodeChar (Nat.le_of_not_lt hc) (hcons ▸ List.mem_cons_of_mem b hx)
    constructor
    · rintro rfl
      exact absurd hlarge (by decide)
    · rintro rfl
      exact absurd hlarge (by decide)

/-- A text is cut among its octets where it is cut among its characters. -/
theorem cutOctetsAtComma_encodeChars (cs : List Char) :
    cutOctetsAtComma (Utf8.encodeChars cs) =
      (Utf8.encodeChars (cutAtComma cs).1, (cutAtComma cs).2.map Utf8.encodeChars) := by
  have hbackslash : Utf8.encodeChar '\\' = [0x5C] := by decide
  induction cs using cutAtComma.induct with
  | case1 => rfl
  | case2 rest =>
    have hcomma : Utf8.encodeChar ',' = [0x2C] := by decide
    rw [Utf8.encodeChars_cons, hcomma, cutAtComma_comma]
    exact cutOctetsAtComma_comma _
  | case3 => rfl
  | case4 e rest _ _ _ _ ih =>
    obtain ⟨b, v, he, hv⟩ := exists_encodeChar_eq_cons e
    rw [cutAtComma_escape]
    simp only [Utf8.encodeChars_cons, hbackslash, he, List.cons_append, List.nil_append,
      cutOctetsAtComma_escape, cutOctetsAtComma_append hv, ih]
  | case5 c rest hcomma hc _ _ _ ih =>
    have hpassed : ∀ b ∈ Utf8.encodeChar c, b ≠ 0x2C ∧ b ≠ 0x5C := by
      intro b hb
      constructor
      · rintro rfl
        exact hcomma ((Utf8.mem_encodeChar_iff (by decide) c).1 hb)
      · rintro rfl
        exact hc ((Utf8.mem_encodeChar_iff (by decide) c).1 hb)
    rw [cutAtComma_plain hcomma hc]
    simp only [Utf8.encodeChars_cons, cutOctetsAtComma_append hpassed, ih]

/-! ### Splitting -/

/-- The parts of a split name are made by a cut that may be made among its octets. -/
lemma exists_cutOctetsAtComma (dn : String) :
    ∃ before behind, cutOctetsAtComma (Utf8.encode dn) =
        (Utf8.encode before, Option.map Utf8.encode behind) ∧
      splitFirst dn = (Blank.trim before, behind.map Blank.trim) := by
  refine ⟨String.ofList (cutAtComma dn.toList).1, (cutAtComma dn.toList).2.map String.ofList, ?_,
    ?_⟩
  · rw [Utf8.encode, cutOctetsAtComma_encodeChars, Utf8.encode, String.toList_ofList,
      Option.map_map]
    have hencode : Utf8.encode ∘ String.ofList = Utf8.encodeChars := by
      funext cs
      rw [Function.comp_apply, Utf8.encode, String.toList_ofList]
    rw [hencode]
  · rw [splitFirst, Option.map_map]
    rfl

/-- The first part of a name that is split is the first relative name, with or without the rest of
the name; the rest, if there is one, is the name of the others.  This is so unless the white space
at the end of the first or of the last part was escaped.  The cut is the one that may be made among
the octets. -/
theorem splitFirst_parses {dn : String} {rdn : Rdn} {rdns : List Rdn}
    (h : parse? dn = some (rdn :: rdns))
    (hfirst : ∀ part ∈ (parts dn).head?, ¬ EndsInEscapedSpace part)
    (hlast : ∀ part ∈ (parts dn).getLast?, ¬ EndsInEscapedSpace part) :
    (∃ before behind, cutOctetsAtComma (Utf8.encode dn) =
        (Utf8.encode before, Option.map Utf8.encode behind) ∧
      splitFirst dn = (Blank.trim before, behind.map Blank.trim)) ∧
    ∃ first, parseRdn? first = some rdn ∧
      (rdns = [] → splitFirst dn = (first, none) ∧ parse? first = some [rdn]) ∧
      (rdns ≠ [] → ∃ rest, splitFirst dn = (first, some rest) ∧ parse? rest = some rdns ∧
        parse? (first ++ "," ++ rest) = some (rdn :: rdns)) := by
  refine ⟨exists_cutOctetsAtComma dn, ?_⟩
  obtain ⟨first, ts, hts, hrdn, hcomma, hsplit⟩ := splitFirst_of_parse? h
  rcases hsplit with ⟨rfl, rfl, hsplit⟩ | ⟨parent, hne, hchars, hparent, hsplit⟩
  · have htrim := parse?_trim_of_parts h hlast
    exact ⟨Blank.trim dn, (parse?_eq_singleton_iff.1 htrim).1, fun _ => ⟨hsplit, htrim⟩,
      fun hne => absurd rfl hne⟩
  · have hsingle : parse? first = some [rdn] :=
      parse?_eq_some_iff.2 (.inr ⟨ts, hts, by rw [rdnsOfTokens?_of_none hcomma, hrdn]; rfl⟩)
    have hpart := parts_of_tokenizes hts hcomma
    have hparts := parts_of_append hchars hts
    -- the trim takes white space only, since neither part ends in a space that is escaped
    have htrim : parse? (Blank.trim first) = some [rdn] := by
      refine parse?_trim_of_parts hsingle fun part hmem => hfirst part ?_
      rw [hpart] at hmem
      rw [hparts, hpart]
      exact hmem
    have hrest : parse? (Blank.trim parent) = some rdns := by
      refine parse?_trim_of_parts hparent fun part hmem => hlast part ?_
      rw [hparts, List.getLast?_append, hmem]
      rfl
    obtain ⟨hrdn, hwhole⟩ := parse?_eq_singleton_iff.1 htrim
    exact ⟨Blank.trim first, hrdn, fun hnil => absurd hnil hne, fun _ =>
      ⟨Blank.trim parent, hsplit, hrest, (parse?_join_iff hrdn hrest hne).2 hwhole⟩⟩

/-- Neither an escaped comma, an escaped space in front of a plus sign or at the end of a part in
the middle, nor a space given by its digits at the end of the name is amiss. -/
theorem splitFirst_parses_escapes :
    let first : Rdn := [⟨"cn", [0x61, 0x2C, 0x20]⟩, ⟨"sn", [0xC3, 0xBC]⟩]
    let rest : List Rdn := [[⟨"ou", [0x62, 0x20]⟩], [⟨"dc", [0x20]⟩]]
    ∃ text others, splitFirst "cn=a\\,\\ +sn=\\C3\\bc , ou=b\\  ,dc=\\20 " = (text, some others) ∧
      parseRdn? text = some first ∧ parse? others = some rest ∧
      parse? (text ++ "," ++ others) = some (first :: rest) := by
  intro first rest
  have hparse : parse? "cn=a\\,\\ +sn=\\C3\\bc , ou=b\\  ,dc=\\20 " = some (first :: rest) := by
    decide +kernel
  obtain ⟨-, text, hfirst, -, hrest⟩ :=
    splitFirst_parses hparse (by decide +kernel) (by decide +kernel)
  obtain ⟨others, hsplit, hothers, hjoin⟩ := hrest (by decide)
  exact ⟨text, others, hsplit, hfirst, hothers, hjoin⟩

/-- White space at the end of the first part is trimmed even if it was escaped. -/
example : parse? "cn=a\\ ,dc=b" = some [[⟨"cn", [0x61, 0x20]⟩], [⟨"dc", [0x62]⟩]] ∧
    splitFirst "cn=a\\ ,dc=b" = ("cn=a\\", some "dc=b") ∧ parseRdn? "cn=a\\" = none := by
  decide +kernel

end DirectoryExchange.Dn

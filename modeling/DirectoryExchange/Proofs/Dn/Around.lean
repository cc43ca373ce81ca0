import DirectoryExchange.Proofs.Dn.Parse
import DirectoryExchange.Proofs.Dn.Tokens
import DirectoryExchange.Proofs.Pieces

/-!
# White space around names

White space that is not escaped does not matter at the ends of a relative name, so that a name may
be trimmed (`parse?_trim`).  It goes wrong only if the white space at the end was escaped: then a
backslash is left dangling, and the trimmed text is no name at all.
-/

namespace DirectoryExchange.Dn

/-! ### Blank tokens -/

/-- Whether the tokens are white space that may be dropped. -/
def Blanks (ts : List Token) : Prop := ∀ t ∈ ts, t.isBlank = true

/-- No blank token is a separator. -/
lemma Blanks.no_separator {ts : List Token} (h : Blanks ts) {c : Char}
    (hc : Blank.isBlank c = false) : ∀ t ∈ ts, (t == .plain c) = false := by
  intro t ht
  refine beq_false_of_ne ?_
  rintro rfl
  have hblank : Blank.isBlank c = true := h _ ht
  rw [hc] at hblank
  exact Bool.false_ne_true hblank

/-- White space that is not escaped gives blank tokens. -/
lemma blanks_map_plain {cs : List Char} (h : ∀ c ∈ cs, Blank.isBlank c = true) :
    Blanks (cs.map .plain) := by
  intro t ht
  obtain ⟨c, hc, rfl⟩ := List.mem_map.1 ht
  exact h c hc

/-- Blank tokens in front of a pair do not matter. -/
lemma parseAva?_append_left {left : List Token} (h : Blanks left) (ts : List Token) :
    parseAva? (left ++ ts) = parseAva? ts := by
  rw [parseAva?, parseAva?, cutWhere?_append_left (h.no_separator (by decide))]
  cases cutWhere? (· == .plain '=') ts with
  | none => rfl
  | some cut =>
    obtain ⟨type, value⟩ := cut
    have htrim : trim (left ++ type) = trim type := Blank.trimBy_append_left h
    simp only [Option.map_some, Option.bind_eq_bind, Option.bind_some, htrim]

/-- Blank tokens behind a pair do not matter. -/
lemma parseAva?_append_right {right : List Token} (h : Blanks right) (ts : List Token) :
    parseAva? (ts ++ right) = parseAva? ts := by
  rw [parseAva?, parseAva?, cutWhere?_append_right (h.no_separator (by decide))]
  cases cutWhere? (· == .plain '=') ts with
  | none => rfl
  | some cut =>
    obtain ⟨type, value⟩ := cut
    have htrim : trim (value ++ right) = trim value := Blank.trimBy_append_right h
    simp only [Option.map_some, Option.bind_eq_bind, Option.bind_some, htrim]

/-- Blank tokens around a relative name do not matter. -/
lemma rdnOfTokens?_around {left right : List Token} (hleft : Blanks left) (hright : Blanks right)
    (ts : List Token) : rdnOfTokens? (left ++ ts ++ right) = rdnOfTokens? ts :=
  mapM_pieces_around (hleft.no_separator (by decide)) (hright.no_separator (by decide))
    (parseAva?_append_left hleft) (parseAva?_append_right hright)

/-- White space is no relative name. -/
lemma rdnOfTokens?_blanks {ts : List Token} (h : Blanks ts) : rdnOfTokens? ts = none := by
  have hnil : Blanks [] := fun t ht => absurd ht List.not_mem_nil
  have haround := rdnOfTokens?_around hnil h []
  rw [List.nil_append, List.nil_append] at haround
  rw [haround]
  rfl

/-! ### Lists of relative names -/

/-- The relative names of tokens between commas. -/
def rdnsOfTokens? (ts : List Token) : Option (List Rdn) :=
  (pieces (· == .plain ',') ts).mapM rdnOfTokens?

/-- Blank tokens around a name do not matter. -/
lemma rdnsOfTokens?_around {left right : List Token} (hleft : Blanks left) (hright : Blanks right)
    (ts : List Token) : rdnsOfTokens? (left ++ ts ++ right) = rdnsOfTokens? ts := by
  have hnil : Blanks [] := fun t ht => absurd ht List.not_mem_nil
  refine mapM_pieces_around (hleft.no_separator (by decide)) (hright.no_separator (by decide))
    (fun piece => ?_) (fun piece => ?_)
  · have h := rdnOfTokens?_around hleft hnil piece
    rwa [List.append_nil] at h
  · have h := rdnOfTokens?_around hnil hright piece
    rwa [List.nil_append] at h

/-- A name has one part more than commas that stand for themselves. -/
lemma length_of_rdnsOfTokens? {ts : List Token} {rdns : List Rdn}
    (h : rdnsOfTokens? ts = some rdns) :
    rdns.length = ts.countP (· == .plain ',') + 1 := by
  have hlength := congrArg List.length (mapM_eq_some_iff.1 h)
  rw [List.length_map, List.length_map, length_pieces] at hlength
  exact hlength.symm

/-- Without a comma there is one relative name. -/
lemma rdnsOfTokens?_of_none {ts : List Token} (h : .plain ',' ∉ ts) :
    rdnsOfTokens? ts = (rdnOfTokens? ts).map fun rdn => [rdn] := by
  have hnone : ∀ t ∈ ts, (t == .plain ',') = false := by
    intro t ht
    refine beq_false_of_ne ?_
    rintro rfl
    exact h ht
  rw [rdnsOfTokens?, pieces_of_none hnone, List.mapM_cons, List.mapM_nil]
  cases rdnOfTokens? ts <;> rfl

/-- A name with one part has no such comma. -/
lemma not_mem_of_rdnsOfTokens? {ts : List Token} {rdn : Rdn}
    (h : rdnsOfTokens? ts = some [rdn]) : .plain ',' ∉ ts := by
  intro hmem
  have hlength := length_of_rdnsOfTokens? h
  have hpos : 0 < ts.countP (· == .plain ',') := List.countP_pos_iff.2 ⟨_, hmem, by simp⟩
  rw [List.length_singleton] at hlength
  omega

/-- A comma keeps the names on its sides apart. -/
lemma rdnsOfTokens?_append_cons {ta tb : List Token} {rdns : List Rdn} :
    rdnsOfTokens? (ta ++ .plain ',' :: tb) = some rdns ↔
      ∃ before behind, rdnsOfTokens? ta = some before ∧ rdnsOfTokens? tb = some behind ∧
        rdns = before ++ behind := by
  rw [rdnsOfTokens?, pieces_append_cons (by simp), List.mapM_append]
  simp only [Option.bind_eq_bind, Option.bind_eq_some_iff, pure, Option.some.injEq,
    rdnsOfTokens?]
  constructor
  · rintro ⟨before, hbefore, behind, hbehind, rfl⟩
    exact ⟨before, behind, hbefore, hbehind, rfl⟩
  · rintro ⟨before, behind, hbefore, hbehind, rfl⟩
    exact ⟨before, hbefore, behind, hbehind, rfl⟩

/-! ### Texts -/

lemma ne_backslash_of_isBlank {c : Char} (h : Blank.isBlank c = true) : c ≠ '\\' := by
  rintro rfl
  exact absurd h (by decide)

/-- White space is no hexadecimal digit. -/
lemma value?_of_isBlank {c : Char} (h : Blank.isBlank c = true) : Hex.value? c = none := by
  simp only [Blank.isBlank, inRanges, Blank.blankRanges, List.any_cons, List.any_nil,
    Bool.or_false, Bool.or_eq_true, Bool.and_eq_true, decide_eq_true_eq] at h
  unfold Hex.value?
  simp only
  split
  · omega
  split
  · omega
  split
  · omega
  · rfl

lemma tokenizes_blanks {cs : List Char} (h : ∀ c ∈ cs, Blank.isBlank c = true) :
    Tokenizes cs (cs.map .plain) :=
  tokenizes_plain fun c hc => ne_backslash_of_isBlank (h c hc)

/-- What a text gives: white space the root, and other texts what their tokens give. -/
theorem parse?_eq_some_iff {dn : String} {rdns : List Rdn} :
    parse? dn = some rdns ↔ (Blank.trim dn = "" ∧ rdns = []) ∨
      ∃ ts, Tokenizes dn.toList ts ∧ rdnsOfTokens? ts = some rdns := by
  rw [parse?]
  by_cases hblank : Blank.isBlankText dn = true
  · have htrim := Blank.isBlankText_iff.1 hblank
    rw [if_pos hblank, Option.some.injEq]
    constructor
    · rintro rfl
      exact .inl ⟨htrim, rfl⟩
    · rintro (⟨-, rfl⟩ | ⟨ts, hts, hrdns⟩)
      · rfl
      · have hall := tokenizes_blanks (List.all_eq_true.1 hblank)
        have hblanks : Blanks ts := by
          rw [hts.unique hall]
          exact blanks_map_plain (List.all_eq_true.1 hblank)
        rw [rdnsOfTokens?_of_none, rdnOfTokens?_blanks hblanks] at hrdns
        · simp at hrdns
        · intro hmem
          exact absurd (hblanks.no_separator (c := ',') (by decide) _ hmem) (by simp)
  · have htrim : Blank.trim dn ≠ "" := fun h => hblank (Blank.isBlankText_iff.2 h)
    rw [if_neg hblank, Option.bind_eq_bind, Option.bind_eq_some_iff]
    simp only [tokenize?_eq_some_iff]
    constructor
    · exact .inr
    · rintro (⟨h, -⟩ | h)
      · exact absurd h htrim
      · exact h

/-- The tokens of a text that does not dangle when it is trimmed. -/
lemma Tokenizes.trim {s : String} {ts : List Token} (h : Tokenizes s.toList ts)
    (hs : dangles (Blank.trim s).toList = false) :
    ∃ left inner right, ts = left ++ inner ++ right ∧ Tokenizes (Blank.trim s).toList inner ∧
      Blanks left ∧ Blanks right := by
  obtain ⟨l, r, hchars, hl, hr⟩ := Blank.exists_around_trim s
  rw [hchars, List.append_assoc] at h
  obtain ⟨rest, rfl, hrest⟩ := h.drop_plain fun c hc => ne_backslash_of_isBlank (hl c hc)
  cases r with
  | nil =>
    rw [List.append_nil] at hrest
    exact ⟨_, rest, [], by simp, hrest, blanks_map_plain hl, fun t ht => absurd ht List.not_mem_nil⟩
  | cons c r =>
    have hc := value?_of_isBlank (hr c List.mem_cons_self)
    obtain ⟨inner, tr, rfl, hinner, htr⟩ := hrest.cut hc hs
    have hblanks : Blanks tr := by
      rw [htr.unique (tokenizes_blanks hr)]
      exact blanks_map_plain hr
    exact ⟨_, inner, tr, by simp, hinner, blanks_map_plain hl, hblanks⟩

/-! ### Trimming -/

/-- A name that is trimmed is still the same name, or none because it dangles. -/
theorem parse?_trim {dn : String} {rdns : List Rdn} (h : parse? dn = some rdns) :
    parse? (Blank.trim dn) = some rdns ∧ dangles (Blank.trim dn).toList = false ∨
      parse? (Blank.trim dn) = none ∧ dangles (Blank.trim dn).toList = true := by
  have htrimmed := Blank.trimmed_trim dn
  rcases parse?_eq_some_iff.1 h with ⟨hblank, rfl⟩ | ⟨ts, hts, hrdns⟩
  · rw [hblank]
    exact .inl ⟨rfl, rfl⟩
  · cases hdangles : dangles (Blank.trim dn).toList with
    | false =>
      obtain ⟨left, inner, right, rfl, hinner, hleft, hright⟩ := hts.trim hdangles
      rw [rdnsOfTokens?_around hleft hright] at hrdns
      exact .inl ⟨parse?_eq_some_iff.2 (.inr ⟨inner, hinner, hrdns⟩), rfl⟩
    | true =>
      refine .inr ⟨Option.eq_none_iff_forall_ne_some.2 ?_, rfl⟩
      intro rdns' h'
      rcases parse?_eq_some_iff.1 h' with ⟨hblank, -⟩ | ⟨ts', hts', -⟩
      · rw [htrimmed] at hblank
        rw [hblank] at hdangles
        exact absurd hdangles (by decide)
      · rw [hts'.not_dangles] at hdangles
        exact Bool.false_ne_true hdangles

example : parse? "cn=a\\ " = some [[⟨"cn", [0x61, 0x20]⟩]] ∧
    parse? (Blank.trim "cn=a\\ ") = none := by
  decide +kernel

/-- Whether the text is a name with one part. -/
def Single (text : String) : Prop := ∃ rdn, parse? text = some [rdn]

section Single

variable {text : String} {rdn : Rdn} {ts : List Token}

/-- A relative name without such a comma, trimmed, is the same name with one part. -/
lemma exists_tokenizes_trim (hts : Tokenizes text.toList ts) (h : rdnOfTokens? ts = some rdn)
    (hdangles : dangles (Blank.trim text).toList = false) (hcomma : .plain ',' ∉ ts) :
    ∃ inner, Tokenizes (Blank.trim text).toList inner ∧ rdnsOfTokens? inner = some [rdn] := by
  obtain ⟨left, inner, right, rfl, hinner, hleft, hright⟩ := hts.trim hdangles
  simp only [List.mem_append, not_or] at hcomma
  rw [rdnOfTokens?_around hleft hright] at h
  refine ⟨inner, hinner, ?_⟩
  rw [rdnsOfTokens?_of_none hcomma.1.2, h, Option.map_some]

/-- A relative name is a name with one part when it is trimmed, unless it dangles then or has a
comma. -/
theorem single_trim_iff (hts : Tokenizes text.toList ts) (h : rdnOfTokens? ts = some rdn) :
    Single (Blank.trim text) ↔ dangles (Blank.trim text).toList = false ∧ .plain ',' ∉ ts := by
  constructor
  · rintro ⟨other, hother⟩
    rcases parse?_eq_some_iff.1 hother with ⟨-, hnil⟩ | ⟨ti, hti, hrdns⟩
    · exact absurd hnil (List.cons_ne_nil _ _)
    · have hdangles := hti.not_dangles
      obtain ⟨left, inner, right, rfl, hinner, hleft, hright⟩ := hts.trim hdangles
      obtain rfl := hti.unique hinner
      have hnone : ∀ {blanks : List Token}, Blanks blanks → .plain ',' ∉ blanks := by
        intro blanks hblanks hmem
        exact absurd (hblanks.no_separator (c := ',') (by decide) _ hmem) (by simp)
      refine ⟨hdangles, ?_⟩
      simp only [List.mem_append, not_or]
      exact ⟨⟨hnone hleft, not_mem_of_rdnsOfTokens? hrdns⟩, hnone hright⟩
  · rintro ⟨hdangles, hcomma⟩
    obtain ⟨inner, hinner, hrdns⟩ := exists_tokenizes_trim hts h hdangles hcomma
    exact ⟨rdn, parse?_eq_some_iff.2 (.inr ⟨inner, hinner, hrdns⟩)⟩

end Single

end DirectoryExchange.Dn

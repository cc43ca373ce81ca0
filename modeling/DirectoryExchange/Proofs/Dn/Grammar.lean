import DirectoryExchange.Proofs.Dn.Around
import DirectoryExchange.Proofs.Text.LetterCase
import Mathlib.Data.Bool.AllAny

/-!
# The grammar of distinguished names

A name is written with its relative names between commas, their pairs between plus signs, and in a
pair a type, an equals sign and a value, with white space around both (`Renders`).  A text is parsed
as relative names exactly if it is a way to write them (`parse?_eq_some_iff_renders`).  The passes
of the parser are undone one by one: the text is cut where its tokens are
(`Tokenizes.separated_iff`), then every pair is rendered on its own (`rendersAva_iff`).
-/

namespace DirectoryExchange.Dn

/-! ### Ways to write a name -/

/-- How an element of a value is written. -/
inductive RendersElement : Token → List Char → Prop
  /-- A character that has no meaning of its own. -/
  | plain {c : Char} (hc : c ∉ ['\\', ',', '+']) : RendersElement (.plain c) [c]
  /-- A special character behind a backslash. -/
  | special {c : Char} (hc : c ∈ specials) :
      RendersElement (.escaped (UInt8.ofNat c.toNat)) ['\\', c]
  /-- An octet by its two digits, in either case. -/
  | octet {octet : UInt8} {digits : List Char}
      (hdigits : digits.map Char.toLower = Hex.digits octet) :
      RendersElement (.escaped octet) ('\\' :: digits)

/-- How the elements of a value are written one behind the other. -/
inductive RendersElements : List Token → List Char → Prop
  | nil : RendersElements [] []
  | cons {t : Token} {ts : List Token} {text rest : List Char} (ht : RendersElement t text)
      (hts : RendersElements ts rest) : RendersElements (t :: ts) (text ++ rest)

/-- Whether all characters are white space. -/
def White (cs : List Char) : Prop := ∀ c ∈ cs, Blank.isBlank c = true

/-- The characters that may not stand in a type. -/
def marks : List Char := ['\\', ',', '+', '=']

/-- How a pair is written. -/
inductive RendersAva : Ava → List Char → Prop
  | intro {type value left beforeSign behindSign right : List Char} {elements : List Token}
      (htype : type ≠ []) (hchars : ∀ c ∈ type, c ∉ marks)
      (hends : Blank.Bare Blank.isBlank type) (hvalue : RendersElements elements value)
      (hvalueEnds : Blank.Bare Token.isBlank elements) (hleft : White left)
      (hbefore : White beforeSign) (hbehind : White behindSign) (hright : White right) :
      RendersAva ⟨String.ofList type, elements.flatMap Token.octets⟩
        (left ++ type ++ beforeSign ++ '=' :: (behindSign ++ value ++ right))

/-- How relative names are written, that of the entry first. -/
inductive Renders : List Rdn → List Char → Prop
  /-- White space for the root. -/
  | root {text : List Char} (h : White text) : Renders [] text
  /-- Pairs between plus signs, between commas. -/
  | names {rdns : List Rdn} {text : List Char}
      (h : Separated ',' (Separated '+' RendersAva) rdns text) : Renders rdns text

/-! ### Cutting texts where their tokens are cut -/

/-- A text is cut where its tokens are. -/
lemma Tokenizes.of_append {text : List Char} {ta tb : List Token}
    (h : Tokenizes text (ta ++ tb)) :
    ∃ a b, text = a ++ b ∧ Tokenizes a ta ∧ Tokenizes b tb := by
  induction ta generalizing text with
  | nil => exact ⟨[], text, rfl, .nil, h⟩
  | cons t ta ih =>
    cases h with
    | plain hc h =>
      obtain ⟨a, b, rfl, ha, hb⟩ := ih h
      exact ⟨_, b, rfl, .plain hc ha, hb⟩
    | special he h =>
      obtain ⟨a, b, rfl, ha, hb⟩ := ih h
      exact ⟨_, b, rfl, .special he ha, hb⟩
    | octet he hoctet h =>
      obtain ⟨a, b, rfl, ha, hb⟩ := ih h
      exact ⟨_, b, rfl, .octet he hoctet ha, hb⟩

/-- A token that stands for itself is the first character of the text. -/
lemma Tokenizes.of_plain_cons {text : List Char} {c : Char} {ts : List Token}
    (h : Tokenizes text (.plain c :: ts)) : ∃ rest, text = c :: rest ∧ Tokenizes rest ts := by
  cases h with
  | plain _ h => exact ⟨_, rfl, h⟩

/-- A text whose tokens all stand for themselves has no backslash. -/
lemma Tokenizes.of_map_plain {text cs : List Char} (h : Tokenizes text (cs.map .plain)) :
    text = cs ∧ ∀ c ∈ cs, c ≠ '\\' := by
  induction cs generalizing text with
  | nil =>
    cases h with
    | nil => exact ⟨rfl, fun c hc => absurd hc List.not_mem_nil⟩
  | cons c cs ih =>
    cases h with
    | plain hc h =>
      obtain ⟨rfl, hcs⟩ := ih h
      exact ⟨rfl, List.forall_mem_cons.2 ⟨hc, hcs⟩⟩

/-- A text is cut at a separator exactly where its tokens are. -/
theorem Tokenizes.separated_iff {β : Type} {R : β → List Token → Prop} {c : Char} (hc : c ≠ '\\')
    {elements : List β} {text : List Char} :
    (∃ ts, Tokenizes text ts ∧ Separated (.plain c) R elements ts) ↔
      Separated c (fun x piece => ∃ ts, Tokenizes piece ts ∧ R x ts) elements text := by
  constructor
  · rintro ⟨ts, hts, h⟩
    induction h generalizing text with
    | last h => exact .last ⟨_, hts, h⟩
    | cons h _ ih =>
      obtain ⟨first, others, rfl, hfirst, hothers⟩ := hts.of_append
      obtain ⟨rest, rfl, hrest⟩ := hothers.of_plain_cons
      exact .cons ⟨_, hfirst, h⟩ (ih hrest)
  · intro h
    induction h with
    | last h =>
      obtain ⟨ts, hts, h⟩ := h
      exact ⟨ts, hts, .last h⟩
    | cons h _ ih =>
      obtain ⟨first, hfirst, h⟩ := h
      obtain ⟨rest, hrest, hothers⟩ := ih
      exact ⟨_, hfirst.append (.plain hc hrest), .cons h hothers⟩

/-! ### Values -/

/-- The two digits of an octet, in either case, are read as that octet. -/
lemma not_mem_specials_of_digits {digits : List Char} {octet : UInt8}
    (h : digits.map Char.toLower = Hex.digits octet) :
    ∃ e f, digits = [e, f] ∧ e ∉ specials ∧ Hex.octet? e f = some octet := by
  have hlength := congrArg List.length h
  rw [List.length_map] at hlength
  obtain ⟨e, f, rfl⟩ := List.length_eq_two.1 hlength
  have hoctet := Hex.octet?_eq_some_iff.2 h
  have hspecials : ∀ e ∈ specials, Hex.value? e = none := List.all_iff_forall_prop.1 (by decide)
  exact ⟨e, f, rfl, fun he => (ne_backslash_of_octet? hoctet).2.2.1 (hspecials e he), hoctet⟩

/-- The elements of a value are the tokens that are no separators. -/
theorem rendersElements_iff {ts : List Token} {text : List Char} :
    RendersElements ts text ↔ Tokenizes text ts ∧ .plain '+' ∉ ts ∧ .plain ',' ∉ ts := by
  constructor
  · intro h
    induction h with
    | nil => exact ⟨.nil, List.not_mem_nil, List.not_mem_nil⟩
    | cons ht _ ih =>
      obtain ⟨hrest, hplus, hcomma⟩ := ih
      simp only [List.mem_cons, not_or]
      cases ht with
      | plain hc =>
        simp only [List.mem_cons, List.not_mem_nil, or_false, not_or] at hc
        exact ⟨.plain hc.1 hrest, ⟨by simp [Ne.symm hc.2.2], hplus⟩,
          ⟨by simp [Ne.symm hc.2.1], hcomma⟩⟩
      | special he => exact ⟨.special he hrest, ⟨nofun, hplus⟩, ⟨nofun, hcomma⟩⟩
      | octet hdigits =>
        obtain ⟨e, f, rfl, he, hoctet⟩ := not_mem_specials_of_digits hdigits
        exact ⟨.octet he hoctet hrest, ⟨nofun, hplus⟩, ⟨nofun, hcomma⟩⟩
  · rintro ⟨h, hplus, hcomma⟩
    induction h with
    | nil => exact .nil
    | plain hc _ ih =>
      simp only [List.mem_cons, not_or] at hplus hcomma
      refine .cons (.plain ?_) (ih hplus.2 hcomma.2)
      simp only [List.mem_cons, List.not_mem_nil, or_false, not_or]
      exact ⟨hc, fun h => hcomma.1 (h ▸ rfl), fun h => hplus.1 (h ▸ rfl)⟩
    | special he _ ih =>
      simp only [List.mem_cons, not_or] at hplus hcomma
      exact .cons (.special he) (ih hplus.2 hcomma.2)
    | octet he hoctet _ ih =>
      simp only [List.mem_cons, not_or] at hplus hcomma
      exact .cons (.octet (Hex.octet?_eq_some_iff.1 hoctet)) (ih hplus.2 hcomma.2)

/-! ### Pairs -/

/-- Characters can be read off tokens that all stand for themselves. -/
lemma plainChars?_eq_some_iff {ts : List Token} {cs : List Char} :
    plainChars? ts = some cs ↔ ts = cs.map .plain := by
  induction ts generalizing cs with
  | nil => cases cs <;> simp [plainChars?]
  | cons t ts ih =>
    cases t with
    | escaped octet => cases cs <;> simp [plainChars?]
    | plain c =>
      rw [plainChars?, Option.map_eq_some_iff]
      cases cs with
      | nil => simp
      | cons d cs => simp [ih, and_comm, eq_comm]

/-- Blank tokens are white space. -/
lemma Blanks.exists_white {ts : List Token} (h : Blanks ts) :
    ∃ cs, ts = cs.map .plain ∧ White cs := by
  induction ts with
  | nil => exact ⟨[], rfl, fun c hc => absurd hc List.not_mem_nil⟩
  | cons t ts ih =>
    obtain ⟨ht, hts⟩ := List.forall_mem_cons.1 h
    obtain ⟨cs, rfl, hcs⟩ := ih hts
    cases t with
    | plain c => exact ⟨c :: cs, rfl, List.forall_mem_cons.2 ⟨ht, hcs⟩⟩
    | escaped octet => exact absurd ht Bool.false_ne_true

/-- Characters that stand for themselves have white space at an end if their tokens do. -/
lemma bare_map_plain_iff {cs : List Char} :
    Blank.Bare Token.isBlank (cs.map .plain) ↔ Blank.Bare Blank.isBlank cs := by
  constructor
  · rintro ⟨hhead, hlast⟩
    exact ⟨fun c hc => hhead (.plain c) (by rw [List.head?_map, hc]; rfl),
      fun c hc => hlast (.plain c) (by rw [List.getLast?_map, hc]; rfl)⟩
  · rintro ⟨hhead, hlast⟩
    refine ⟨fun t ht => ?_, fun t ht => ?_⟩
    · rw [List.head?_map, Option.map_eq_some_iff] at ht
      obtain ⟨c, hc, rfl⟩ := ht
      exact hhead c hc
    · rw [List.getLast?_map, Option.map_eq_some_iff] at ht
      obtain ⟨c, hc, rfl⟩ := ht
      exact hlast c hc

/-- What is left of tokens when the white space around them is dropped. -/
lemma trim_eq_iff {ts inner : List Token} : trim ts = inner ↔
    Blank.Bare Token.isBlank inner ∧ ∃ left right, White left ∧ White right ∧
      ts = left.map .plain ++ inner ++ right.map .plain := by
  rw [trim, Blank.trimBy_eq_iff]
  refine and_congr_right fun _ => ⟨?_, ?_⟩
  · rintro ⟨left, right, rfl, hleft, hright⟩
    obtain ⟨l, rfl, hl⟩ := Blanks.exists_white hleft
    obtain ⟨r, rfl, hr⟩ := Blanks.exists_white hright
    exact ⟨l, r, hl, hr, rfl⟩
  · rintro ⟨l, r, hl, hr, rfl⟩
    exact ⟨_, _, rfl, blanks_map_plain hl, blanks_map_plain hr⟩

/-- White space is no mark of the grammar. -/
lemma White.not_mark {cs : List Char} (h : White cs) : ∀ c ∈ cs, c ∉ marks := by
  have hmarks : ∀ c ∈ marks, Blank.isBlank c = false := List.all_iff_forall_prop.1 (by decide)
  intro c hc hmark
  have hblank := h c hc
  rw [hmarks c hmark] at hblank
  exact Bool.false_ne_true hblank

/-- Characters other than marks give no token that is one. -/
lemma not_mem_map_plain {cs : List Char} (h : ∀ c ∈ cs, c ∉ marks) {c : Char} (hc : c ∈ marks) :
    .plain c ∉ cs.map Token.plain := by
  intro hmem
  obtain ⟨d, hd, heq⟩ := List.mem_map.1 hmem
  obtain rfl := Token.plain.inj heq
  exact h d hd hc

/-- A rendered pair is read, and no separator is among its tokens. -/
lemma exists_parseAva?_of_renders {ava : Ava} {text : List Char} (h : RendersAva ava text) :
    ∃ ts, Tokenizes text ts ∧ (parseAva? ts = some ava ∧ .plain '+' ∉ ts) ∧ .plain ',' ∉ ts := by
  obtain @⟨type, value, left, beforeSign, behindSign, right, elements, htype, hchars, hends, hvalue,
    hvalueEnds, hleft, hbefore, hbehind, hright⟩ := h
  obtain ⟨hvalue, hplus, hcomma⟩ := rendersElements_iff.1 hvalue
  have hfront : ∀ c ∈ left ++ type ++ beforeSign, c ∉ marks :=
    List.forall_mem_append.2 ⟨List.forall_mem_append.2 ⟨hleft.not_mark, hchars⟩,
      hbefore.not_mark⟩
  -- a mark other than the sign is found in the value only, if at all
  have hnone : ∀ {c}, c ∈ marks → c ≠ '=' → .plain c ∉ elements →
      .plain c ∉ (left ++ type ++ beforeSign).map Token.plain ++
        .plain '=' :: (behindSign.map .plain ++ elements ++ right.map .plain) := by
    intro c hc hsign helements
    simp only [List.mem_append, List.mem_cons, Token.plain.injEq, not_or]
    exact ⟨not_mem_map_plain hfront hc, hsign,
      ⟨not_mem_map_plain hbehind.not_mark hc, helements⟩, not_mem_map_plain hright.not_mark hc⟩
  refine ⟨_, ?_, ⟨?_, hnone (by decide) (by decide) hplus⟩, hnone (by decide) (by decide) hcomma⟩
  · have hbackslash : ∀ c ∈ left ++ type ++ beforeSign, c ≠ '\\' := by
      rintro c hc rfl
      exact hfront _ hc (by decide)
    exact (tokenizes_plain hbackslash).append (.plain (by decide)
      (((tokenizes_blanks hbehind).append hvalue).append (tokenizes_blanks hright)))
  · refine parseAva?_eq_some_iff.2 ⟨_, _, type, cutWhere?_eq_some_iff.2
      ⟨.plain '=', beq_self_eq_true _, ?_, rfl⟩, plainChars?_eq_some_iff.2 ?_, htype, ?_⟩
    · rintro t ht
      refine beq_false_of_ne ?_
      rintro rfl
      exact not_mem_map_plain hfront (by decide) ht
    · exact trim_eq_iff.2 ⟨bare_map_plain_iff.2 hends, left, beforeSign, hleft, hbefore,
        by simp only [List.map_append]⟩
    · rw [trim_eq_iff.2 ⟨hvalueEnds, behindSign, right, hbehind, hright, rfl⟩]

/-- A pair that is read, without a separator among its tokens, is rendered. -/
lemma renders_of_parseAva? {ava : Ava} {text : List Char} {ts : List Token}
    (hts : Tokenizes text ts) (h : parseAva? ts = some ava) (hplus : .plain '+' ∉ ts)
    (hcomma : .plain ',' ∉ ts) : RendersAva ava text := by
  obtain ⟨type, value, chars, hcut, hchars, hne, rfl⟩ := parseAva?_eq_some_iff.1 h
  obtain ⟨sign, hsign, hfirst, rfl⟩ := cutWhere?_eq_some_iff.1 hcut
  obtain rfl : sign = .plain '=' := eq_of_beq hsign
  obtain ⟨hends, left, before, hleft, hbefore, rfl⟩ :=
    trim_eq_iff.1 (plainChars?_eq_some_iff.1 hchars)
  obtain ⟨helements, behind, right, hbehind, hright, hvalue⟩ := trim_eq_iff.1 (rfl : trim value = _)
  generalize trim value = elements at helements hvalue ⊢
  subst hvalue
  rw [← List.map_append, ← List.map_append] at hts hfirst hplus hcomma
  -- the text falls apart as its tokens do
  obtain ⟨front, signed, rfl, hfront, hsigned⟩ := hts.of_append
  obtain ⟨rest, rfl, hrest⟩ := hsigned.of_plain_cons
  obtain ⟨rest, blanks, rfl, hrest, hblanks⟩ := hrest.of_append
  obtain ⟨blanks', text, rfl, hblanks', htext⟩ := hrest.of_append
  obtain ⟨rfl, hbackslash⟩ := hfront.of_map_plain
  obtain ⟨rfl, -⟩ := hblanks.of_map_plain
  obtain ⟨rfl, -⟩ := hblanks'.of_map_plain
  have hmarks : ∀ c ∈ chars, c ∉ marks := by
    intro c hc hmark
    have hmem : c ∈ left ++ chars ++ before := List.mem_append_left _ (List.mem_append_right _ hc)
    have htoken : Token.plain c ∈ (left ++ chars ++ before).map .plain := List.mem_map_of_mem hmem
    simp only [marks, List.mem_cons, List.not_mem_nil, or_false] at hmark
    rcases hmark with rfl | rfl | rfl | rfl
    · exact hbackslash _ hmem rfl
    · exact hcomma (List.mem_append_left _ htoken)
    · exact hplus (List.mem_append_left _ htoken)
    · exact absurd (hfirst _ htoken) (by simp)
  simp only [List.mem_append, List.mem_cons, not_or] at hplus hcomma
  exact .intro hne hmarks (bare_map_plain_iff.1 hends)
    (rendersElements_iff.2 ⟨htext, hplus.2.2.1.2, hcomma.2.2.1.2⟩) helements hleft hbefore hbehind
    hright

/-- A pair is parsed exactly if it is written as one. -/
theorem rendersAva_iff {ava : Ava} {text : List Char} :
    RendersAva ava text ↔ ∃ ts, Tokenizes text ts ∧
      (parseAva? ts = some ava ∧ .plain '+' ∉ ts) ∧ .plain ',' ∉ ts :=
  ⟨exists_parseAva?_of_renders,
    fun ⟨_, hts, ⟨hava, hplus⟩, hcomma⟩ => renders_of_parseAva? hts hava hplus hcomma⟩

/-! ### Names -/

/-- The relative names of tokens are parsed pair by pair. -/
lemma rdnsOfTokens?_eq_some_iff {ts : List Token} {rdns : List Rdn} :
    rdnsOfTokens? ts = some rdns ↔ Separated (.plain ',') (Separated (.plain '+')
      fun ava piece => (parseAva? piece = some ava ∧ .plain '+' ∉ piece) ∧ .plain ',' ∉ piece)
        rdns ts := by
  rw [rdnsOfTokens?, mapM_pieces_eq_some_iff]
  refine Separated.iff_of_forall fun rdn piece => ?_
  rw [rdnOfTokens?, mapM_pieces_eq_some_iff]
  exact Separated.and_not_mem_iff (by decide)

/-- Tokens that give relative names are those of a text that is a way to write them. -/
lemma exists_rdnsOfTokens?_iff {text : List Char} {rdns : List Rdn} :
    (∃ ts, Tokenizes text ts ∧ rdnsOfTokens? ts = some rdns) ↔
      Separated ',' (Separated '+' RendersAva) rdns text := by
  simp only [rdnsOfTokens?_eq_some_iff]
  rw [Tokenizes.separated_iff (by decide)]
  refine Separated.iff_of_forall fun rdn piece => ?_
  rw [Tokenizes.separated_iff (by decide)]
  exact Separated.iff_of_forall fun ava piece => rendersAva_iff.symm

/-- A name that is read is a way to write what it is read as. -/
lemma renders_of_parse? {dn : String} {rdns : List Rdn} (h : parse? dn = some rdns) :
    Renders rdns dn.toList := by
  rcases parse?_eq_some_iff.1 h with ⟨hblank, rfl⟩ | hnames
  · exact .root (List.all_eq_true.1 (Blank.isBlankText_iff.2 hblank))
  · exact .names (exists_rdnsOfTokens?_iff.1 hnames)

/-- Every way to write a name is read as that name. -/
lemma parse?_of_renders {dn : String} {rdns : List Rdn} (h : Renders rdns dn.toList) :
    parse? dn = some rdns := by
  cases h with
  | root h =>
    have hblank := Blank.isBlankText_iff.1 (List.all_eq_true.2 h)
    exact parse?_eq_some_iff.2 (.inl ⟨hblank, rfl⟩)
  | names h => exact parse?_eq_some_iff.2 (.inr (exists_rdnsOfTokens?_iff.2 h))

/-- The parser accepts the texts of the grammar and no others, and gives what they are written
for. -/
theorem parse?_eq_some_iff_renders (dn : String) (rdns : List Rdn) :
    parse? dn = some rdns ↔ Renders rdns dn.toList :=
  ⟨renders_of_parse?, parse?_of_renders⟩

example : parse? " cn = a\\2C\\, b +uid=\\ , dc=com" =
    some [[⟨"cn", [0x61, 0x2C, 0x2C, 0x20, 0x62]⟩, ⟨"uid", [0x20]⟩],
      [⟨"dc", [0x63, 0x6F, 0x6D]⟩]] := by
  decide +kernel

end DirectoryExchange.Dn

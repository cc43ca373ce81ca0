import DirectoryExchange.Filter.Parser
import DirectoryExchange.Proofs.Text.LetterCase
import DirectoryExchange.Proofs.Text.Utf8
import Mathlib.Data.Bool.AllAny
import Mathlib.Data.List.Basic

/-!
# Values in filters

An octet of a value is written as itself, or by two hexadecimal digits behind a backslash
(`Spells TwoDigits`).  The parser reads what is written so, and one form more, a plus sign and a
single digit behind the backslash (`spells_iff`).
-/

namespace DirectoryExchange

namespace Utf8

/-- Characters whose octets begin with those of others begin with these. -/
lemma exists_append_of_encodeChars {cs ds : List Char} {v : Bytes}
    (h : encodeChars cs = encodeChars ds ++ v) :
    ∃ rest, cs = ds ++ rest ∧ encodeChars rest = v := by
  have htexts : encode (String.ofList cs) = encode (String.ofList ds) ++ v := by
    rwa [encode, encode, String.toList_ofList, String.toList_ofList]
  obtain ⟨rest, hrest, rfl⟩ := exists_append_of_encode htexts
  refine ⟨rest.toList, ?_, rfl⟩
  rw [← String.toList_inj, String.toList_append, String.toList_ofList,
    String.toList_ofList] at hrest
  exact hrest

end Utf8

namespace Filter

/-- The characters of which no octet stands for itself in a value. -/
def valueMarks : List Char := ['(', ')', '*', '\\']

/-- The two digits of an octet, in either case. -/
def TwoDigits (octet : UInt8) (digits : List Char) : Prop :=
  digits.map Char.toLower = Hex.digits octet

instance (octet : UInt8) (digits : List Char) : Decidable (TwoDigits octet digits) :=
  inferInstanceAs (Decidable (_ = _))

/-- One digit behind a plus sign. -/
def SignedDigit (octet : UInt8) (digits : List Char) : Prop :=
  ∃ digit, digits = ['+', digit] ∧ TwoDigits octet ['0', digit]

/-- What the parser takes for an octet behind a backslash. -/
def Accepted (octet : UInt8) (digits : List Char) : Prop :=
  TwoDigits octet digits ∨ SignedDigit octet digits

/-- How the octets of a value are written, if `escapes` says what may stand behind a backslash. -/
inductive Spells (escapes : UInt8 → List Char → Prop) : Bytes → Bytes → Prop
  | nil : Spells escapes [] []
  /-- An octet that has no meaning of its own. -/
  | itself {octet : UInt8} {value written : Bytes}
      (hoctet : octet ∉ Utf8.encodeChars valueMarks) (h : Spells escapes value written) :
      Spells escapes (octet :: value) (octet :: written)
  /-- An octet that is given by digits. -/
  | escaped {octet : UInt8} {digits : List Char} {value written : Bytes}
      (hdigits : escapes octet digits) (h : Spells escapes value written) :
      Spells escapes (octet :: value) (Utf8.encodeChars ('\\' :: digits) ++ written)

/-! ### What may stand behind a backslash -/

/-- What is accepted behind a backslash are the two characters that the parser reads as an octet. -/
lemma accepted_iff {octet : UInt8} {digits : List Char} :
    Accepted octet digits ↔
      ∃ high low, digits = [high, low] ∧ escapedOctet? high low = some octet := by
  have hplus : Hex.value? '+' = none := by decide
  constructor
  · rintro (h | ⟨digit, rfl, h⟩)
    · have hlength := congrArg List.length h
      rw [List.length_map] at hlength
      obtain ⟨high, low, rfl⟩ := List.length_eq_two.1 hlength
      have hoctet := Hex.octet?_eq_some_iff.2 h
      refine ⟨high, low, rfl, ?_⟩
      rw [escapedOctet?, if_neg, hoctet]
      rintro rfl
      simp [Hex.octet?, hplus] at hoctet
    · exact ⟨'+', digit, rfl, by rw [escapedOctet?, if_pos rfl, Hex.octet?_eq_some_iff.2 h]⟩
  · rintro ⟨high, low, rfl, h⟩
    rw [escapedOctet?] at h
    split at h
    · next hhigh =>
      subst hhigh
      exact .inr ⟨low, rfl, Hex.octet?_eq_some_iff.1 h⟩
    · exact .inl (Hex.octet?_eq_some_iff.1 h)

/-- What stands for an octet is no bracket and no asterisk. -/
lemma not_mem_of_escapedOctet? {high low : Char} {octet : UInt8}
    (h : escapedOctet? high low = some octet) :
    ∀ c ∈ [high, low], c ∉ ['(', ')', '*'] := by
  have hnone : ∀ c ∈ ['(', ')', '*'], Hex.value? c = none ∧ c ≠ '+' :=
    List.all_iff_forall_prop.1 (by decide)
  have hlow : Hex.value? low ≠ none := by
    intro hlow
    rw [escapedOctet?] at h
    split at h <;> simp [Hex.octet?, hlow] at h
  have hhigh : high = '+' ∨ Hex.value? high ≠ none := by
    by_cases hhigh : high = '+'
    · exact .inl hhigh
    · refine .inr fun hvalue => ?_
      rw [escapedOctet?, if_neg hhigh] at h
      simp [Hex.octet?, hvalue] at h
  intro c hc hmark
  simp only [List.mem_cons, List.not_mem_nil, or_false] at hc
  rcases hc with rfl | rfl
  · exact hhigh.elim (hnone c hmark).2 fun hvalue => hvalue (hnone c hmark).1
  · exact hlow (hnone c hmark).1

/-! ### The octets of a value -/

section

variable {escapes : UInt8 → List Char → Prop} {value : Bytes}

/-- A value that is spelled is so with more ways to write an octet. -/
lemma Spells.mono {escapes' : UInt8 → List Char → Prop} {written : Bytes}
    (h : Spells escapes value written)
    (hmono : ∀ octet digits, escapes octet digits → escapes' octet digits) :
    Spells escapes' value written := by
  induction h with
  | nil => exact .nil
  | itself hoctet _ ih => exact .itself hoctet ih
  | escaped hdigits _ ih => exact .escaped (hmono _ _ hdigits) ih

/-- Octets that are no marks stand for themselves. -/
lemma spells_append_iff {octets written : Bytes}
    (h : ∀ octet ∈ octets, octet ∉ Utf8.encodeChars valueMarks) :
    Spells escapes value (octets ++ written) ↔
      ∃ behind, value = octets ++ behind ∧ Spells escapes behind written := by
  induction octets generalizing value with
  | nil => simp
  | cons octet octets ih =>
    obtain ⟨hoctet, hoctets⟩ := List.forall_mem_cons.1 h
    constructor
    · intro hspells
      generalize htext : octet :: octets ++ written = text at hspells
      cases hspells with
      | nil => simp at htext
      | itself _ hrest =>
        obtain ⟨rfl, rfl⟩ := List.cons.inj htext
        obtain ⟨behind, rfl, hbehind⟩ := (ih hoctets).1 hrest
        exact ⟨behind, rfl, hbehind⟩
      | escaped _ _ =>
        have hbackslash : octet = 0x5C := (List.cons.inj htext).1
        exact absurd (hbackslash ▸ hoctet) (by decide)
    · rintro ⟨behind, rfl, hbehind⟩
      exact .itself hoctet ((ih hoctets).2 ⟨behind, rfl, hbehind⟩)

/-- A character that has no meaning of its own stands for its octets. -/
lemma spells_cons_iff {c : Char} (hc : c ∉ valueMarks) {rest : List Char} :
    Spells escapes value (Utf8.encodeChars (c :: rest)) ↔
      ∃ behind, value = Utf8.encodeChar c ++ behind ∧
        Spells escapes behind (Utf8.encodeChars rest) := by
  have hascii : ∀ octet ∈ Utf8.encodeChars valueMarks, octet.toNat < 0x80 ∧
      Char.ofNat octet.toNat ∈ valueMarks := List.all_iff_forall_prop.1 (by decide)
  refine spells_append_iff fun octet hoctet hmark => hc ?_
  rw [(Utf8.mem_encodeChar_iff (hascii octet hmark).1 c).1 hoctet]
  exact (hascii octet hmark).2

/-- A backslash is followed by the digits of an octet. -/
lemma spells_backslash_iff {rest : List Char} :
    Spells escapes value (Utf8.encodeChars ('\\' :: rest)) ↔
      ∃ octet digits behind left, escapes octet digits ∧ value = octet :: behind ∧
        rest = digits ++ left ∧ Spells escapes behind (Utf8.encodeChars left) := by
  constructor
  · intro hspells
    generalize htext : Utf8.encodeChars ('\\' :: rest) = text at hspells
    cases hspells with
    | nil => exact absurd (Utf8.encodeChars_eq_nil_iff.1 htext) (List.cons_ne_nil _ _)
    | itself hoctet _ =>
      obtain ⟨rfl, -⟩ := List.cons.inj htext
      exact absurd hoctet (by decide)
    | escaped hdigits hrest =>
      obtain ⟨left, hleft, rfl⟩ := Utf8.exists_append_of_encodeChars htext
      exact ⟨_, _, _, left, hdigits, rfl, (List.cons.inj hleft).2, hrest⟩
  · rintro ⟨octet, digits, behind, left, hdigits, rfl, rfl, hrest⟩
    rw [← List.cons_append, Utf8.encodeChars_append]
    exact .escaped hdigits hrest

/-- A bracket or a star has to be escaped. -/
lemma not_spells_cons {c : Char} (hc : c ∈ ['(', ')', '*']) {rest : List Char} :
    ¬ Spells escapes value (Utf8.encodeChars (c :: rest)) := by
  have hone : ∀ c ∈ ['(', ')', '*'], ∃ octet ∈ Utf8.encodeChars valueMarks,
      octet ≠ 0x5C ∧ Utf8.encodeChar c = [octet] :=
    List.all_iff_forall_prop.1 (by decide)
  obtain ⟨octet, hmark, hne, hoctet⟩ := hone c hc
  intro hspells
  rw [Utf8.encodeChars_cons, hoctet, List.singleton_append] at hspells
  generalize htext : octet :: Utf8.encodeChars rest = text at hspells
  cases hspells with
  | nil => simp at htext
  | itself hmark' _ => exact hmark' ((List.cons.inj htext).1 ▸ hmark)
  | escaped _ _ => exact hne (List.cons.inj htext).1

end

/-- What is read behind a backslash. -/
lemma spells_escape_iff {high low : Char} {rest : List Char} {value : Bytes} :
    Spells Accepted value (Utf8.encodeChars ('\\' :: high :: low :: rest)) ↔
      ∃ octet behind, escapedOctet? high low = some octet ∧ value = octet :: behind ∧
        Spells Accepted behind (Utf8.encodeChars rest) := by
  rw [spells_backslash_iff]
  constructor
  · rintro ⟨octet, digits, behind, left, hdigits, rfl, hleft, hrest⟩
    obtain ⟨high', low', rfl, hoctet⟩ := accepted_iff.1 hdigits
    obtain ⟨rfl, rfl, rfl⟩ : high = high' ∧ low = low' ∧ rest = left := by simpa using hleft
    exact ⟨octet, behind, hoctet, rfl, hrest⟩
  · rintro ⟨octet, behind, hoctet, rfl, hrest⟩
    exact ⟨octet, [high, low], behind, rest, accepted_iff.2 ⟨high, low, rfl, hoctet⟩, rfl, rfl,
      hrest⟩

lemma unescape?_plain {c : Char} (hc : c ≠ '\\') (rest : List Char) :
    unescape? (c :: rest) = (unescape? rest).map (Utf8.encodeChar c ++ ·) := by
  conv_lhs => unfold unescape?
  rw [if_neg hc]

/-- The parser reads the octets that are written, of characters that do not end the value. -/
theorem spells_iff {raw : List Char} {value : Bytes} :
    Spells Accepted value (Utf8.encodeChars raw) ↔
      unescape? raw = some value ∧ ∀ c ∈ raw, c ∉ ['(', ')', '*'] := by
  have hbackslash : '\\' ∉ ['(', ')', '*'] := by decide
  -- the cases of the reader: the end, an escape, a backslash without digits, a plain character
  induction raw using unescape?.induct generalizing value with
  | case1 =>
    constructor
    · intro h
      cases h with
      | nil => exact ⟨rfl, fun c hc => absurd hc List.not_mem_nil⟩
    · rintro ⟨h, -⟩
      obtain rfl := Option.some.inj h
      exact .nil
  | case2 high low rest octet hoctet ih =>
    rw [spells_escape_iff, unescape?, if_pos rfl, hoctet]
    have hpair := not_mem_of_escapedOctet? hoctet
    simp only [List.forall_mem_cons, Option.map_eq_some_iff] at hpair ⊢
    constructor
    · rintro ⟨octet', behind, heq, rfl, hrest⟩
      obtain rfl := Option.some.inj heq
      obtain ⟨hbehind, hchars⟩ := ih.1 hrest
      exact ⟨⟨behind, hbehind, rfl⟩, hbackslash, hpair.1, hpair.2.1, hchars⟩
    · rintro ⟨⟨behind, hbehind, rfl⟩, -, -, -, hchars⟩
      exact ⟨octet, behind, rfl, rfl, ih.2 ⟨hbehind, hchars⟩⟩
  | case3 high low rest hoctet =>
    rw [spells_escape_iff, unescape?, if_pos rfl, hoctet]
    simp
  | case4 rest hshort =>
    rw [spells_backslash_iff, unescape?, if_pos rfl]
    · refine iff_of_false ?_ fun h => Option.some_ne_none _ h.1.symm
      rintro ⟨octet, digits, behind, left, hdigits, -, hleft, -⟩
      obtain ⟨high, low, rfl, -⟩ := accepted_iff.1 hdigits
      exact hshort high low left hleft
    · exact hshort
  | case5 c rest hc ih =>
    rw [unescape?_plain hc, Option.map_eq_some_iff, List.forall_mem_cons]
    by_cases hmark : c ∈ ['(', ')', '*']
    · exact iff_of_false (not_spells_cons hmark) fun h => h.2.1 hmark
    · have hplain : c ∉ valueMarks := by simp_all [valueMarks]
      rw [spells_cons_iff hplain]
      constructor
      · rintro ⟨behind, rfl, hrest⟩
        obtain ⟨hbehind, hchars⟩ := ih.1 hrest
        exact ⟨⟨behind, hbehind, rfl⟩, hmark, hchars⟩
      · rintro ⟨⟨behind, hbehind, rfl⟩, -, hchars⟩
        exact ⟨behind, rfl, ih.2 ⟨hbehind, hchars⟩⟩

/-- Without a plus sign behind a backslash every octet that is escaped has its two digits. -/
theorem Spells.strict {raw : List Char} {value : Bytes}
    (h : Spells Accepted value (Utf8.encodeChars raw)) (hplus : ¬ ['\\', '+'] <:+: raw) :
    Spells TwoDigits value (Utf8.encodeChars raw) := by
  have hbehind : ∀ (front : List Char) {rest : List Char}, ¬ ['\\', '+'] <:+: front ++ rest →
      ¬ ['\\', '+'] <:+: rest :=
    fun front rest h hrest => h (hrest.trans (List.suffix_append _ _).isInfix)
  induction raw using unescape?.induct generalizing value with
  | case1 =>
    cases h
    exact .nil
  | case2 high low rest octet hoctet ih =>
    obtain ⟨octet', behind, hoctet', rfl, hrest⟩ := spells_escape_iff.1 h
    have hhigh : high ≠ '+' := by
      rintro rfl
      exact hplus ⟨[], low :: rest, rfl⟩
    rw [escapedOctet?, if_neg hhigh] at hoctet'
    exact spells_backslash_iff.2 ⟨octet', [high, low], behind, rest,
      Hex.octet?_eq_some_iff.1 hoctet', rfl, rfl, ih hrest (hbehind ['\\', high, low] hplus)⟩
  | case3 high low rest hoctet =>
    obtain ⟨octet, -, hsome, -⟩ := spells_escape_iff.1 h
    rw [hoctet] at hsome
    exact absurd hsome (Option.some_ne_none _).symm
  | case4 rest hshort =>
    obtain ⟨octet, digits, -, left, hdigits, -, hleft, -⟩ := spells_backslash_iff.1 h
    obtain ⟨high, low, rfl, -⟩ := accepted_iff.1 hdigits
    exact absurd hleft (hshort high low left)
  | case5 c rest hc ih =>
    have hplain : c ∉ valueMarks := by
      have := (spells_iff.1 h).2 c List.mem_cons_self
      simp_all [valueMarks]
    obtain ⟨behind, rfl, hrest⟩ := (spells_cons_iff hplain).1 h
    exact (spells_cons_iff hplain).2 ⟨behind, rfl, ih hrest (hbehind [c] hplus)⟩

end Filter

end DirectoryExchange

import DirectoryExchange.Dn.Basic
import DirectoryExchange.Proofs.Text.Blank
import Mathlib.Tactic.Lemma

/-!
# The tokens of names

Texts with tokens can be put together, and a text can be cut between two tokens
(`Tokenizes.cut`).  The one place where a cut goes wrong is behind a backslash that was to escape
what comes next; what stands before such a cut is left dangling (`dangles`) and has no tokens.
-/

namespace DirectoryExchange.Dn

/-! ### Tokens one by one -/

/-- Which tokens a text has. -/
inductive Tokenizes : List Char → List Token → Prop
  /-- The empty text has none. -/
  | nil : Tokenizes [] []
  /-- A character that is no backslash stands for itself. -/
  | plain {c : Char} {cs : List Char} {ts : List Token} (hc : c ≠ '\\') (h : Tokenizes cs ts) :
      Tokenizes (c :: cs) (.plain c :: ts)
  /-- A backslash before a special character. -/
  | special {e : Char} {cs : List Char} {ts : List Token} (he : e ∈ specials)
      (h : Tokenizes cs ts) : Tokenizes ('\\' :: e :: cs) (.escaped (UInt8.ofNat e.toNat) :: ts)
  /-- A backslash before two hexadecimal digits. -/
  | octet {e f : Char} {octet : UInt8} {cs : List Char} {ts : List Token} (he : e ∉ specials)
      (hoctet : Hex.octet? e f = some octet) (h : Tokenizes cs ts) :
      Tokenizes ('\\' :: e :: f :: cs) (.escaped octet :: ts)

/-- The tokens of a text are those of the grammar. -/
theorem tokenize?_eq_some_iff {cs : List Char} {ts : List Token} :
    tokenize? cs = some ts ↔ Tokenizes cs ts := by
  constructor
  · intro h
    induction cs using tokenize?.induct generalizing ts with
    | case1 =>
      obtain rfl := Option.some.inj h
      exact .nil
    | case2 => simp [tokenize?] at h
    | case3 e rest he ih =>
      rw [tokenize?_special he, Option.map_eq_some_iff] at h
      obtain ⟨ts, hrest, rfl⟩ := h
      exact .special he (ih hrest)
    | case4 e he => simp [tokenize?, he] at h
    | case5 e he f rest octet hoctet ih =>
      rw [tokenize?_octet he hoctet, Option.map_eq_some_iff] at h
      obtain ⟨ts, hrest, rfl⟩ := h
      exact .octet he hoctet (ih hrest)
    | case6 e he f rest hoctet => simp [tokenize?, he, hoctet] at h
    | case7 c rest hc ih =>
      rw [tokenize?_plain hc, Option.map_eq_some_iff] at h
      obtain ⟨ts, hrest, rfl⟩ := h
      exact .plain hc (ih hrest)
  · intro h
    induction h with
    | nil => rfl
    | plain hc h ih => rw [tokenize?_plain hc, ih, Option.map_some]
    | special he h ih => rw [tokenize?_special he, ih, Option.map_some]
    | octet he hoctet h ih => rw [tokenize?_octet he hoctet, ih, Option.map_some]

/-- A text has one list of tokens. -/
lemma Tokenizes.unique {cs : List Char} {ts ts' : List Token} (h : Tokenizes cs ts)
    (h' : Tokenizes cs ts') : ts = ts' := by
  rw [← tokenize?_eq_some_iff] at h h'
  rw [h] at h'
  exact Option.some.inj h'

/-- Two digits of an octet are digits, and so neither a backslash nor a comma. -/
lemma ne_backslash_of_octet? {e f : Char} {octet : UInt8} (h : Hex.octet? e f = some octet) :
    f ≠ '\\' ∧ f ≠ ',' ∧ Hex.value? e ≠ none ∧ Hex.value? f ≠ none := by
  simp only [Hex.octet?, Option.bind_eq_bind, Option.bind_eq_some_iff] at h
  obtain ⟨high, hhigh, low, hlow, -⟩ := h
  have hbackslash : Hex.value? '\\' = none := by decide
  have hcomma : Hex.value? ',' = none := by decide
  refine ⟨?_, ?_, by simp [hhigh], by simp [hlow]⟩
  · rintro rfl
    simp [hbackslash] at hlow
  · rintro rfl
    simp [hcomma] at hlow

/-- Texts one behind the other have their tokens one behind the other. -/
lemma Tokenizes.append {a b : List Char} {ta tb : List Token} (ha : Tokenizes a ta)
    (hb : Tokenizes b tb) : Tokenizes (a ++ b) (ta ++ tb) := by
  induction ha with
  | nil => exact hb
  | plain hc _ ih => exact .plain hc ih
  | special he _ ih => exact .special he ih
  | octet he hoctet _ ih => exact .octet he hoctet ih

/-- Characters that are no backslashes stand for themselves. -/
lemma tokenizes_plain {cs : List Char} (h : ∀ c ∈ cs, c ≠ '\\') :
    Tokenizes cs (cs.map .plain) := by
  induction cs with
  | nil => exact .nil
  | cons c cs ih =>
    obtain ⟨hc, hcs⟩ := List.forall_mem_cons.1 h
    exact .plain hc (ih hcs)

/-- Characters that stand for themselves can be taken off the front of a text. -/
lemma Tokenizes.drop_plain {a b : List Char} {ts : List Token} (h : Tokenizes (a ++ b) ts)
    (ha : ∀ c ∈ a, c ≠ '\\') : ∃ tb, ts = a.map .plain ++ tb ∧ Tokenizes b tb := by
  induction a generalizing ts with
  | nil => exact ⟨ts, rfl, h⟩
  | cons c a ih =>
    obtain ⟨hc, ha⟩ := List.forall_mem_cons.1 ha
    generalize htext : c :: a ++ b = text at h
    cases h with
    | nil => simp at htext
    | plain _ h =>
      obtain ⟨rfl, rfl⟩ := List.cons.inj htext
      obtain ⟨tb, rfl, hb⟩ := ih h ha
      exact ⟨tb, rfl, hb⟩
    | special => exact absurd (List.cons.inj htext).1 hc
    | octet => exact absurd (List.cons.inj htext).1 hc

/-! ### Cutting -/

/-- Whether the text ends with a backslash that has nothing behind it to escape. -/
def dangles : List Char → Bool
  | [] => false
  | ['\\'] => true
  | '\\' :: _ :: cs => dangles cs
  | _ :: cs => dangles cs

/-- A character that is no backslash leaves nothing dangling. -/
lemma dangles_cons {c : Char} (hc : c ≠ '\\') (cs : List Char) :
    dangles (c :: cs) = dangles cs := by
  rw [dangles]
  · rintro rfl
    exact absurd rfl hc
  · rintro _ _ rfl
    exact absurd rfl hc

/-- A text that has tokens leaves nothing dangling. -/
lemma Tokenizes.not_dangles {cs : List Char} {ts : List Token} (h : Tokenizes cs ts) :
    dangles cs = false := by
  induction h with
  | nil => rfl
  | plain hc _ ih => rw [dangles_cons hc, ih]
  | special _ _ ih => rw [dangles, ih]
  | octet _ hoctet _ ih =>
    rw [dangles, dangles_cons (ne_backslash_of_octet? hoctet).1, ih]

/-- A text may be cut in front of a character that is no hexadecimal digit, unless what comes
before is left dangling. -/
theorem Tokenizes.cut {a b : List Char} {c : Char} {ts : List Token}
    (h : Tokenizes (a ++ c :: b) ts) (hc : Hex.value? c = none) (ha : dangles a = false) :
    ∃ ta tb, ts = ta ++ tb ∧ Tokenizes a ta ∧ Tokenizes (c :: b) tb := by
  generalize htext : a ++ c :: b = text at h
  -- the cut falls between two tokens: what is in front of it does not dangle, and `c` is no digit
  induction h generalizing a with
  | nil => simp at htext
  | @plain d cs ts hd h ih =>
    cases a with
    | nil =>
      obtain ⟨rfl, rfl⟩ := List.cons.inj htext
      exact ⟨[], _, rfl, .nil, .plain hd h⟩
    | cons d' a =>
      obtain ⟨rfl, rfl⟩ := List.cons.inj htext
      rw [dangles_cons hd] at ha
      obtain ⟨ta, tb, rfl, hta, htb⟩ := ih ha rfl
      exact ⟨_, tb, rfl, .plain hd hta, htb⟩
  | @special e cs ts he h ih =>
    rcases a with _ | ⟨d, _ | ⟨d', a⟩⟩
    · obtain ⟨rfl, rfl⟩ := List.cons.inj htext
      exact ⟨[], _, rfl, .nil, .special he h⟩
    · obtain ⟨rfl, -⟩ := List.cons.inj htext
      exact absurd ha (by decide)
    · simp only [List.cons_append, List.cons.injEq] at htext
      obtain ⟨rfl, rfl, rfl⟩ := htext
      rw [dangles] at ha
      obtain ⟨ta, tb, rfl, hta, htb⟩ := ih ha rfl
      exact ⟨_, tb, rfl, .special he hta, htb⟩
  | @octet e f octet cs ts he hoctet h ih =>
    obtain ⟨hf, -, -, hvalue⟩ := ne_backslash_of_octet? hoctet
    rcases a with _ | ⟨d, _ | ⟨d', _ | ⟨d'', a⟩⟩⟩
    · obtain ⟨rfl, rfl⟩ := List.cons.inj htext
      exact ⟨[], _, rfl, .nil, .octet he hoctet h⟩
    · obtain ⟨rfl, -⟩ := List.cons.inj htext
      exact absurd ha (by decide)
    · simp only [List.cons_append, List.nil_append, List.cons.injEq] at htext
      obtain ⟨-, -, rfl, -⟩ := htext
      exact absurd hc hvalue
    · simp only [List.cons_append, List.cons.injEq] at htext
      obtain ⟨rfl, rfl, rfl, rfl⟩ := htext
      rw [dangles, dangles_cons hf] at ha
      obtain ⟨ta, tb, rfl, hta, htb⟩ := ih ha rfl
      exact ⟨_, tb, rfl, .octet he hoctet hta, htb⟩

/-- What dangles is a text that does not, with a backslash behind it. -/
lemma eq_append_of_dangles {cs : List Char} (h : dangles cs = true) :
    ∃ a, cs = a ++ ['\\'] ∧ dangles a = false := by
  induction cs using dangles.induct with
  | case1 => simp [dangles] at h
  | case2 => exact ⟨[], rfl, rfl⟩
  | case3 d cs ih =>
    rw [dangles] at h
    obtain ⟨a, rfl, ha⟩ := ih h
    exact ⟨'\\' :: d :: a, rfl, by rw [dangles, ha]⟩
  | case4 c cs hsingle hpair ih =>
    have hc : c ≠ '\\' := by
      rintro rfl
      cases cs with
      | nil => exact hsingle rfl rfl
      | cons d cs => exact hpair d cs rfl rfl
    rw [dangles_cons hc] at h
    obtain ⟨a, rfl, ha⟩ := ih h
    exact ⟨c :: a, rfl, by rw [dangles_cons hc, ha]⟩

/-- Whether a text dangles is a matter of what stands behind a comma, even an escaped one. -/
lemma dangles_append_cons {a b : List Char} {c : Char} (hc : c ≠ '\\') :
    dangles (a ++ c :: b) = dangles b := by
  induction a using dangles.induct with
  | case1 => exact dangles_cons hc b
  | case2 => rfl
  | case3 d cs ih =>
    rw [List.cons_append, List.cons_append, dangles, ih]
  | case4 d cs hsingle hpair ih =>
    have hd : d ≠ '\\' := by
      rintro rfl
      cases cs with
      | nil => exact hsingle rfl rfl
      | cons d' cs => exact hpair d' cs rfl rfl
    rw [List.cons_append, dangles_cons hd, ih]

/-! ### The first comma -/

/-- What is cut off are the sides of a comma. -/
lemma eq_of_cutAtComma {cs before behind : List Char} (h : cutAtComma cs = (before, some behind)) :
    cs = before ++ ',' :: behind := by
  induction cs using cutAtComma.induct generalizing before with
  | case1 => cases h
  | case2 rest =>
    rw [cutAtComma_comma] at h
    cases h
    rfl
  | case3 => cases h
  | case4 e rest _ _ _ _ ih =>
    rw [cutAtComma_escape] at h
    obtain ⟨rfl, hbehind⟩ := Prod.mk.inj h
    rw [List.cons_append, List.cons_append, ← ih (Prod.ext rfl hbehind)]
  | case5 c rest hcomma hc _ _ _ ih =>
    rw [cutAtComma_plain hcomma hc] at h
    obtain ⟨rfl, hbehind⟩ := Prod.mk.inj h
    rw [List.cons_append, ← ih (Prod.ext rfl hbehind)]

/-- A text without a comma that stands for itself is not cut. -/
theorem cutAtComma_of_tokenizes {cs : List Char} {ts : List Token} (h : Tokenizes cs ts) :
    (.plain ',' ∉ ts ∧ cutAtComma cs = (cs, none)) ∨
      ∃ before behind tb tr, cutAtComma cs = (before, some behind) ∧ .plain ',' ∉ tb ∧
        ts = tb ++ .plain ',' :: tr ∧ Tokenizes before tb ∧ Tokenizes behind tr := by
  induction h with
  | nil => exact .inl ⟨List.not_mem_nil, rfl⟩
  | @plain c cs ts hc h ih =>
    by_cases hcomma : c = ','
    · subst hcomma
      exact .inr ⟨[], cs, [], ts, cutAtComma_comma cs, List.not_mem_nil, rfl, .nil, h⟩
    · rcases ih with ⟨hnone, hcut⟩ | ⟨before, behind, tb, tr, hcut, htb, rfl, hbefore, hbehind⟩
      · refine .inl ⟨by simp [hnone, Ne.symm hcomma], ?_⟩
        rw [cutAtComma_plain hcomma hc, hcut]
      · refine .inr ⟨c :: before, behind, .plain c :: tb, tr, ?_, by simp [htb, Ne.symm hcomma],
          rfl, .plain hc hbefore, hbehind⟩
        rw [cutAtComma_plain hcomma hc, hcut]
  | @special e cs ts he h ih =>
    rcases ih with ⟨hnone, hcut⟩ | ⟨before, behind, tb, tr, hcut, htb, rfl, hbefore, hbehind⟩
    · refine .inl ⟨by simp [hnone], ?_⟩
      rw [cutAtComma_escape, hcut]
    · refine .inr ⟨'\\' :: e :: before, behind, .escaped (UInt8.ofNat e.toNat) :: tb, tr, ?_,
        by simp [htb], rfl, .special he hbefore, hbehind⟩
      rw [cutAtComma_escape, hcut]
  | @octet e f octet cs ts he hoctet h ih =>
    obtain ⟨hf, hcomma, -, -⟩ := ne_backslash_of_octet? hoctet
    rcases ih with ⟨hnone, hcut⟩ | ⟨before, behind, tb, tr, hcut, htb, rfl, hbefore, hbehind⟩
    · refine .inl ⟨by simp [hnone], ?_⟩
      rw [cutAtComma_escape, cutAtComma_plain hcomma hf, hcut]
    · refine .inr ⟨'\\' :: e :: f :: before, behind, .escaped octet :: tb, tr, ?_,
        by simp [htb], rfl, .octet he hoctet hbefore, hbehind⟩
      rw [cutAtComma_escape, cutAtComma_plain hcomma hf, hcut]

end DirectoryExchange.Dn

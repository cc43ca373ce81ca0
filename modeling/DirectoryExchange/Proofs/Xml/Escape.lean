import DirectoryExchange.Proofs.Xml.CharacterData

/-!
# Escapes there and back

What was escaped is read as it was (`unescape?_encode_escape`), and no escaped text holds a bracket
or a quotation mark, so that it stays within its place in the markup (`not_mem_escapeChars`).
-/

namespace DirectoryExchange.Xml

/-- A character is one of the five that have an entity, or stands for itself. -/
lemma escapeChar_cases (c : Char) :
    (∃ name, (c, name) ∈ entities ∧ escapeChar c = '&' :: name ++ [';']) ∨
      (c ∉ entities.map (·.1) ∧ escapeChar c = [c]) := by
  by_cases h : c ∈ entities.map (·.1)
  · left
    simp only [entities, List.map_cons, List.map_nil, List.mem_cons, List.not_mem_nil,
      or_false] at h
    rcases h with rfl | rfl | rfl | rfl | rfl
    all_goals exact ⟨_, by decide, rfl⟩
  · right
    refine ⟨h, ?_⟩
    have hlookup : entities.lookup c = none := by
      rw [List.lookup_eq_none_iff]
      intro p hp
      rw [bne_iff_ne]
      rintro rfl
      exact h (List.mem_map_of_mem hp)
    rw [escapeChar, hlookup]

/-- Escaping is a way to write characters. -/
lemma denotes_escapeChars (cs : List Char) : Denotes (escapeChars cs) cs := by
  induction cs with
  | nil => exact .nil
  | cons c cs ih =>
    have hcons : escapeChars (c :: cs) = escapeChar c ++ escapeChars cs := rfl
    rw [hcons]
    rcases escapeChar_cases c with ⟨name, hname, hc⟩ | ⟨hplain, hc⟩
    · have hreference := Denotes.reference (.entity hname) ih
      rw [hc]
      simpa using hreference
    · have hne : ∀ x ∈ entities.map (·.1), c ≠ x := by
        rintro x hx rfl
        exact hplain hx
      rw [hc]
      exact .plain (hne _ (by decide)) (hne _ (by decide)) ih

/-- The text as character data that has been escaped. -/
def escaped (s : String) : CharacterData :=
  ⟨escape s, s, by rw [escape, String.toList_ofList]; exact denotes_escapeChars _⟩

/-- An escaped text is read as the text. -/
theorem unescape?_encode_escape (s : String) : unescape? (Utf8.encode (escape s)) = some s :=
  (escaped s).unescape?_octets

/-- Brackets and quotation marks do not come out of escaping. -/
lemma not_mem_escapeChars {c : Char} (hc : c ∈ ['<', '>', '\x27', '"']) (cs : List Char) :
    c ∉ escapeChars cs := by
  intro hmem
  obtain ⟨x, -, hx⟩ := List.mem_flatMap.1 hmem
  have hnames : ∀ p ∈ entities, ∀ c ∈ ['<', '>', '\x27', '"'], c ∉ '&' :: p.2 ++ [';'] := by
    simp [entities]
  have hplain : ∀ c ∈ ['<', '>', '\x27', '"'], c ∈ entities.map (·.1) := by simp [entities]
  rcases escapeChar_cases x with ⟨name, hname, hescape⟩ | ⟨hself, hescape⟩
  · rw [hescape] at hx
    exact hnames _ hname c hc hx
  · rw [hescape, List.mem_singleton] at hx
    exact hself (hx ▸ hplain c hc)

/-- The octet of a bracket or quotation mark does not occur in an escaped text. -/
lemma not_mem_encode_escape {b : UInt8} (hb : b ∈ ([0x3C, 0x3E, 0x27, 0x22] : Bytes)) (s : String) :
    b ∉ Utf8.encode (escape s) := by
  have hmarks : ∀ b ∈ ([0x3C, 0x3E, 0x27, 0x22] : Bytes), b.toNat < 0x80 ∧
      Char.ofNat b.toNat ∈ ['<', '>', '\x27', '"'] := by
    simp
  obtain ⟨hascii, hchar⟩ := hmarks b hb
  rw [Utf8.encode, escape, String.toList_ofList, Utf8.mem_encodeChars_iff hascii]
  exact not_mem_escapeChars hchar _

lemma escape_append (s t : String) : escape (s ++ t) = escape s ++ escape t := by
  simp [escape, escapeChars]

/-- Only the empty text is escaped to nothing. -/
lemma escape_eq_empty_iff {s : String} : escape s = "" ↔ s = "" := by
  constructor
  · intro h
    have hread := unescape?_encode_escape s
    rw [h] at hread
    exact (Option.some.inj hread).symm
  · rintro rfl
    rfl

/-- A text without any of the five characters is written as it is. -/
lemma escape_eq_self {s : String} (h : ∀ c ∈ s.toList, c ∉ entities.map (·.1)) : escape s = s := by
  have hchars : ∀ cs : List Char, (∀ c ∈ cs, c ∉ entities.map (·.1)) → escapeChars cs = cs := by
    intro cs hcs
    induction cs with
    | nil => rfl
    | cons c cs ih =>
      obtain ⟨hc, hcs⟩ := List.forall_mem_cons.1 hcs
      have hself : escapeChar c = [c] := by
        rcases escapeChar_cases c with ⟨name, hname, -⟩ | ⟨-, hself⟩
        · exact absurd (List.mem_map_of_mem hname) hc
        · exact hself
      have hcons : escapeChars (c :: cs) = escapeChar c ++ escapeChars cs := rfl
      rw [hcons, hself, ih hcs, List.singleton_append]
  rw [escape, hchars _ h, String.ofList_toList]

end DirectoryExchange.Xml

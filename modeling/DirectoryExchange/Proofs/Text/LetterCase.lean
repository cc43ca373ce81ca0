import DirectoryExchange.Text.Hex
import DirectoryExchange.Text.Lowercase
import Mathlib.Tactic.Lemma

/-!
# The letter case of ASCII

A capital letter of ASCII is 32 places before its small letter (`toLower_cases`).  Hexadecimal
digits are the same in both cases (`Hex.octet?_eq_some_iff`), and a text has the lower case of
every other spelling of it (`Lowercase.lower_eq_of_map_toLower`).
-/

namespace DirectoryExchange

/-- Only the capital letters of ASCII have another lower case. -/
lemma toLower_cases (c : Char) :
    (c.toLower = c ∧ ¬ (0x41 ≤ c.toNat ∧ c.toNat ≤ 0x5A)) ∨
      (0x41 ≤ c.toNat ∧ c.toNat ≤ 0x5A ∧ c.toLower.toNat = c.toNat + 0x20) := by
  unfold Char.toLower
  split
  · next h =>
    obtain ⟨hlow, hhigh⟩ := h
    rw [ge_iff_le, UInt32.le_iff_toNat_le] at hlow
    rw [UInt32.le_iff_toNat_le] at hhigh
    have hle : 0x41 ≤ c.val.toNat := hlow
    have hge : c.val.toNat ≤ 0x5A := hhigh
    refine .inr ⟨hlow, hhigh, ?_⟩
    change (c.val + ('a'.val - 'A'.val)).toNat = c.val.toNat + 0x20
    rw [UInt32.toNat_add]
    have : ('a'.val - 'A'.val).toNat = 0x20 := rfl
    omega
  · next h =>
    refine .inl ⟨rfl, fun hupper => h ?_⟩
    rw [ge_iff_le, UInt32.le_iff_toNat_le, UInt32.le_iff_toNat_le]
    exact hupper

namespace Hex

/-- Digits are told apart in lower case. -/
lemma value?_eq_some_iff {c : Char} {n : Nat} :
    value? c = some n ↔ n < 16 ∧ c.toLower = Nat.digitChar n := by
  have hdigit : ∀ n < 16, (Nat.digitChar n).toNat = if n < 10 then 0x30 + n else 0x57 + n := by
    decide
  have hlower := toLower_cases c
  rw [← Char.toNat_inj] at hlower ⊢
  unfold value?
  simp only
  constructor
  · intro h
    have hn : n < 16 := by grind
    rw [hdigit n hn]
    grind
  · rintro ⟨hn, h⟩
    rw [hdigit n hn] at h
    grind

/-- The two digits of an octet, in either case. -/
theorem octet?_eq_some_iff {e f : Char} {octet : UInt8} :
    octet? e f = some octet ↔ [e, f].map Char.toLower = digits octet := by
  have hoctet := octet.toNat_lt
  simp only [octet?, Option.bind_eq_bind, Option.bind_eq_some_iff, pure, Option.some.injEq,
    value?_eq_some_iff, digits, List.map_cons, List.map_nil, List.cons.injEq, and_true]
  constructor
  · rintro ⟨high, ⟨hhigh, he⟩, low, ⟨hlow, hf⟩, rfl⟩
    rw [UInt8.toNat_ofNat_of_lt' (by simp only [UInt8.size]; omega)]
    have hdiv : (high * 16 + low) / 16 = high := by omega
    have hmod : (high * 16 + low) % 16 = low := by omega
    rw [hdiv, hmod]
    exact ⟨he, hf⟩
  · rintro ⟨he, hf⟩
    refine ⟨octet.toNat / 16, ⟨by omega, he⟩, octet.toNat % 16, ⟨by omega, hf⟩, ?_⟩
    rw [Nat.div_add_mod', UInt8.ofNat_toNat]

end Hex

namespace Lowercase

/-- The capital sigma is no letter of ASCII, and none becomes it. -/
lemma toNat_toLower_eq_iff (c : Char) : c.toLower.toNat = 0x3A3 ↔ c.toNat = 0x3A3 := by
  rcases toLower_cases c with ⟨h, -⟩ | ⟨hle, hge, h⟩
  · rw [h]
  · omega

/-- Ranges that begin behind ASCII do not matter to ASCII. -/
lemma inRanges_of_lt (ranges : List (Nat × Nat)) {n : Nat} (hn : n < 0x80) :
    inRanges ranges n = inRanges (ranges.filter fun r => r.1 < 0x80) n := by
  rw [inRanges, inRanges, List.any_filter]
  congr 1
  funext r
  by_cases hr : r.1 < 0x80
  · simp [hr]
  · have hout : ¬ r.1 ≤ n := by omega
    simp [hr, hout]

/-- Characters of ASCII are looked up in the ranges that begin in ASCII. -/
lemma findSome?_of_lt (ranges : List MappedRange) {n : Nat} (hn : n < 0x80) :
    ranges.findSome? (·.image? n) =
      (ranges.filter fun r => r.first < 0x80).findSome? (·.image? n) := by
  induction ranges with
  | nil => rfl
  | cons r ranges ih =>
    by_cases hr : r.first < 0x80
    · rw [List.filter_cons_of_pos (by simpa using hr), List.findSome?_cons, List.findSome?_cons, ih]
    · have hout : r.image? n = none := by
        rw [MappedRange.image?, if_neg]
        omega
      rw [List.filter_cons_of_neg (by simpa using hr), List.findSome?_cons, hout, ih]

/-- A character of ASCII has the lower case of its letter. -/
lemma lowerChar_of_ascii {c : Char} (hc : c.toNat < 0x80) : lowerChar c = [c.toLower] := by
  have hranges : (singles.filter fun r => r.first < 0x80) = [⟨0x41, 0x5A, 1, 0x61⟩] := rfl
  have hnot : c.toNat ≠ 0x130 := by omega
  rw [lowerChar, if_neg hnot, findSome?_of_lt singles hc, hranges, List.findSome?_singleton,
    MappedRange.image?]
  simp only [Nat.mod_one, and_true]
  rcases toLower_cases c with ⟨hsame, hother⟩ | ⟨hle, hge, hlower⟩
  · rw [if_neg hother, hsame]
  · have hsmall : 0x61 + (c.toNat - 0x41) = c.toLower.toNat := by omega
    simp only [if_pos (And.intro hle hge), hsmall, Char.ofNat_toNat]

/-- Capital letters of ASCII have the properties of the small ones. -/
lemma of_toLower (c : Char) : lowerChar c.toLower = lowerChar c ∧
    isIgnorable c.toLower = isIgnorable c ∧ isCased c.toLower = isCased c := by
  rcases toLower_cases c with ⟨h, -⟩ | ⟨hle, hge, h⟩
  · rw [h]
    exact ⟨rfl, rfl, rfl⟩
  have hcapital : c.toNat < 0x80 := by omega
  have hsmall : c.toLower.toNat < 0x80 := by omega
  have hcased : (casedRanges.filter fun r => r.1 < 0x80) = [(0x41, 0x5A), (0x61, 0x7A)] := by
    decide +kernel
  have hignorable : (ignorableRanges.filter fun r => r.1 < 0x80) =
      [(0x27, 0x27), (0x2E, 0x2E), (0x3A, 0x3A), (0x5E, 0x5E), (0x60, 0x60)] := by
    decide +kernel
  have hlower : c.toLower.toLower = c.toLower := by
    rcases toLower_cases c.toLower with ⟨hsame, -⟩ | ⟨-, hge', -⟩
    · exact hsame
    · omega
  refine ⟨?_, ?_, ?_⟩
  · rw [lowerChar_of_ascii hsmall, lowerChar_of_ascii hcapital, hlower]
  · rw [isIgnorable, isIgnorable, inRanges_of_lt _ hsmall, inRanges_of_lt _ hcapital, hignorable, h]
    simp only [inRanges]
    grind
  · rw [isCased, isCased, inRanges_of_lt _ hsmall, inRanges_of_lt _ hcapital, hcased, h]
    simp only [inRanges]
    grind

/-- Whether a cased character is met does not depend on the case of ASCII letters. -/
lemma meetsCased_map_toLower (cs : List Char) :
    meetsCased (cs.map Char.toLower) = meetsCased cs := by
  induction cs with
  | nil => rfl
  | cons c cs ih =>
    obtain ⟨-, hignorable, hcased⟩ := of_toLower c
    cases hc : isIgnorable c with
    | true =>
      rw [hc] at hignorable
      rwa [meetsCased, meetsCased, List.map_cons, List.dropWhile_cons_of_pos hignorable,
        List.dropWhile_cons_of_pos hc]
    | false =>
      rw [hc] at hignorable
      rw [meetsCased, meetsCased, List.map_cons, List.dropWhile_cons_of_neg (by simp [hignorable]),
        List.dropWhile_cons_of_neg (by simp [hc])]
      exact hcased

/-- A text has the lower case of its lower case in ASCII. -/
lemma lowerChars_map_toLower (before cs : List Char) :
    lowerChars (before.map Char.toLower) (cs.map Char.toLower) = lowerChars before cs := by
  induction cs generalizing before with
  | nil => rfl
  | cons c cs ih =>
    have hrest := ih (c :: before)
    rw [List.map_cons] at hrest
    simp only [List.map_cons, lowerChars, toNat_toLower_eq_iff, meetsCased_map_toLower, hrest,
      (of_toLower c).1]

/-- Texts that differ in the case of ASCII letters have the same lower case. -/
theorem lower_eq_of_map_toLower {s t : String}
    (h : s.toList.map Char.toLower = t.toList.map Char.toLower) : lower s = lower t := by
  rw [lower, lower, ← lowerChars_map_toLower [] s.toList, h, lowerChars_map_toLower]

/-- In ASCII the lower case is that of the letters one by one. -/
lemma lowerChars_of_ascii {cs : List Char} (h : ∀ c ∈ cs, c.toNat < 0x80) (before : List Char) :
    lowerChars before cs = cs.map Char.toLower := by
  induction cs generalizing before with
  | nil => rfl
  | cons c cs ih =>
    obtain ⟨hc, hcs⟩ := List.forall_mem_cons.1 h
    have hsigma : c.toNat ≠ 0x3A3 := by omega
    simp only [lowerChars, if_neg hsigma, lowerChar_of_ascii hc, ih hcs, List.map_cons,
      List.singleton_append]

/-- A text of ASCII has the lower case of its letters. -/
theorem toList_lower_of_ascii {s : String} (h : ∀ c ∈ s.toList, c.toNat < 0x80) :
    (lower s).toList = s.toList.map Char.toLower := by
  rw [lower, String.toList_ofList, lowerChars_of_ascii h]

end Lowercase

end DirectoryExchange

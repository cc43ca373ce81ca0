import DirectoryExchange.Ldif.Record
import DirectoryExchange.Proofs.Ldif.Layout
import DirectoryExchange.Proofs.Text.Blank
import DirectoryExchange.Proofs.Text.LetterCase

/-!
# Words in any letter case

A directive is a word in which the case of ASCII letters is free, and so is the name of an attribute
where it is repeated (`Spells`).  Another spelling names the same (`Spells.sameName`), stands on a
line as the name does (`Spells.readable`), and has no more white space around it
(`Spells.trimmed`).
-/

namespace DirectoryExchange.Ldif

/-- Whether the texts are the same but for the case of ASCII letters. -/
def Spells (name spelling : String) : Prop := lowerAscii spelling = lowerAscii name

/-! ### Characters -/

/-- A letter folds as its lower case does. -/
lemma foldChar_toLower (c : Char) : CaseFold.foldChar c.toLower = CaseFold.foldChar c := by
  rcases toLower_cases c with ⟨h, -⟩ | ⟨hle, hge, h⟩
  · rw [h]
  · have hnot : ¬ (0x41 ≤ c.toNat + 0x20 ∧ c.toNat + 0x20 ≤ 0x5A) := by omega
    have hsmall : c.toNat + 0x20 < 0x80 := by omega
    have hlt : c.toNat < 0x80 := by omega
    rw [CaseFold.foldChar, CaseFold.foldChar, h, if_pos hsmall, if_neg hnot, if_pos hlt,
      if_pos ⟨hle, hge⟩, ← h, Char.ofNat_toNat]

/-- Letter case makes no white space. -/
lemma isBlank_toLower (c : Char) : Blank.isBlank c.toLower = Blank.isBlank c := by
  rcases toLower_cases c with ⟨h, -⟩ | ⟨hle, hge, h⟩
  · rw [h]
  · have hletter : ∀ n, 0x41 ≤ n → n ≤ 0x7A → inRanges Blank.blankRanges n = false := by
      intro n hlow hhigh
      simp only [inRanges, Blank.blankRanges, List.any_cons, List.any_nil, Bool.or_false,
        Bool.or_eq_false_iff, Bool.and_eq_false_iff, decide_eq_false_iff_not]
      omega
    rw [Blank.isBlank, Blank.isBlank, h, hletter _ (by omega) (by omega), hletter _ hle (by omega)]

/-- A character that is no letter of ASCII is only the lower case of itself. -/
lemma eq_of_toLower_eq {c d : Char} (h : d.toLower = c) (hc : c.toNat < 0x61) : d = c := by
  rcases toLower_cases d with ⟨hsame, -⟩ | ⟨hle, hge, hlower⟩
  · rw [← h, hsame]
  · rw [h] at hlower
    omega

/-! ### Spellings -/

lemma toList_lowerAscii (s : String) : (lowerAscii s).toList = s.toList.map Char.toLower := by
  rw [lowerAscii, String.toList_map]

/-- What has no capital letter is in lower case already. -/
lemma lowerAscii_eq_self {s : String} (h : s.toList.map Char.toLower = s.toList) :
    lowerAscii s = s := by
  rw [← String.toList_inj, toList_lowerAscii, h]

/-- Texts with the same characters in lower case spell the same. -/
lemma spells_of_map_toLower {name spelling : String}
    (h : spelling.toList.map Char.toLower = name.toList.map Char.toLower) :
    Spells name spelling := by
  rw [Spells, ← String.toList_inj, toList_lowerAscii, toList_lowerAscii, h]

namespace Spells

variable {name spelling : String} (h : Spells name spelling)
include h

lemma map_toLower : spelling.toList.map Char.toLower = name.toList.map Char.toLower := by
  rw [← toList_lowerAscii, ← toList_lowerAscii, h]

/-- Another spelling names the same. -/
theorem fold_eq : CaseFold.fold spelling = CaseFold.fold name := by
  have hfold : ∀ s : String,
      CaseFold.fold s = (s.toList.map Char.toLower).flatMap CaseFold.foldChar := by
    intro s
    simp only [CaseFold.fold, List.flatMap_map, foldChar_toLower]
  rw [hfold, hfold, h.map_toLower]

/-- Only letters are free in a spelling. -/
lemma mem_iff {c : Char} (hc : c.toNat < 0x41) : c ∈ spelling.toList ↔ c ∈ name.toList := by
  have hlower : ∀ s : String, c ∈ s.toList ↔ c ∈ s.toList.map Char.toLower := by
    intro s
    rw [List.mem_map]
    constructor
    · intro hmem
      refine ⟨c, hmem, ?_⟩
      rcases toLower_cases c with ⟨hsame, -⟩ | ⟨hle, -⟩
      · exact hsame
      · omega
    · rintro ⟨d, hmem, hd⟩
      rwa [← eq_of_toLower_eq hd (by omega)]
  rw [hlower, hlower, h.map_toLower]

theorem sameName (other : String) :
    DirectoryExchange.sameName spelling other = DirectoryExchange.sameName name other := by
  rw [DirectoryExchange.sameName, DirectoryExchange.sameName, h.fold_eq]

/-- A spelling of a name is not empty. -/
lemma ne_empty (hname : name ≠ "") : spelling ≠ "" := by
  rintro rfl
  have hchars := h.map_toLower
  rw [String.toList_empty, List.map_nil, eq_comm, List.map_eq_nil_iff] at hchars
  exact hname (String.toList_eq_nil_iff.1 hchars)

/-- A spelling stands on a line as the name does. -/
lemma readable (hname : Readable name) : Readable spelling := by
  obtain ⟨⟨c, rest, hchars, hspace, hcomment⟩, hlf, hcr⟩ := hname
  have hspelled := h.map_toLower
  rw [hchars, List.map_cons] at hspelled
  obtain ⟨d, more, hmore, hd, -⟩ := List.map_eq_cons_iff.1 hspelled
  have hfirst : ∀ mark : Char, mark.toNat < 0x41 → c ≠ mark → d ≠ mark := by
    rintro mark hmark hne rfl
    have hsame : c.toLower = d := by
      rcases toLower_cases d with ⟨hsame, -⟩ | ⟨hle, -⟩
      · rw [← hd, hsame]
      · omega
    exact hne (eq_of_toLower_eq hsame (by omega))
  refine ⟨⟨d, more, hmore, hfirst ' ' (by decide) hspace, hfirst '#' (by decide) hcomment⟩, ?_, ?_⟩
  · rwa [h.mem_iff (by decide)]
  · rwa [h.mem_iff (by decide)]

/-- A spelling has no more white space around it than the name. -/
lemma trimmed (hname : Blank.Trimmed name) : Blank.Trimmed spelling := by
  have hchars := h.map_toLower
  refine Blank.trimmed_of_ends (fun c hc => ?_) (fun c hc => ?_)
  · have hhead := congrArg List.head? hchars
    rw [List.head?_map, List.head?_map, hc, Option.map_some, eq_comm,
      Option.map_eq_some_iff] at hhead
    obtain ⟨d, hd, hlower⟩ := hhead
    rw [← isBlank_toLower, ← hlower, isBlank_toLower]
    exact hname.head hd
  · have hlast := congrArg List.getLast? hchars
    rw [List.getLast?_map, List.getLast?_map, hc, Option.map_some, eq_comm,
      Option.map_eq_some_iff] at hlast
    obtain ⟨d, hd, hlower⟩ := hlast
    rw [← isBlank_toLower, ← hlower, isBlank_toLower]
    exact hname.last hd

end Spells

lemma Spells.refl (name : String) : Spells name name := Eq.refl _

end DirectoryExchange.Ldif

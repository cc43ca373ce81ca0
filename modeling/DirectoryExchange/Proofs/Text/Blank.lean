import DirectoryExchange.Text.Blank
import Mathlib.Data.List.Basic
import Mathlib.Data.List.TakeWhile

/-!
# Trimmed texts

What is trimmed neither begins nor ends with white space (`head?_trimBy`, `getLast?_trimBy`), and
what does neither is left as it is (`trimBy_eq_self`).
-/

namespace DirectoryExchange.Blank

section List

variable {α : Type} {p : α → Bool} {xs : List α}

/-- What is dropped in front does not change the end. -/
lemma getLast?_dropWhile {x : α} (h : (xs.dropWhile p).getLast? = some x) :
    xs.getLast? = some x := by
  obtain ⟨dropped, hxs⟩ := List.dropWhile_suffix (l := xs) p
  rw [← hxs, List.getLast?_append, h, Option.some_or]

/-- What is left behind a drop does not begin with more to drop. -/
lemma head?_dropWhile {x : α} (h : (xs.dropWhile p).head? = some x) : p x = false := by
  have hnot := List.head?_dropWhile_not p xs
  rw [h] at hnot
  exact hnot

/-- What is trimmed does not end with more to trim. -/
lemma getLast?_trimBy {x : α} (h : (trimBy p xs).getLast? = some x) : p x = false := by
  rw [trimBy, List.getLast?_reverse] at h
  exact head?_dropWhile h

/-- What is trimmed does not begin with more to trim. -/
lemma head?_trimBy {x : α} (h : (trimBy p xs).head? = some x) : p x = false := by
  rw [trimBy, List.head?_reverse] at h
  have hfirst := getLast?_dropWhile h
  rw [List.getLast?_reverse] at hfirst
  exact head?_dropWhile hfirst

lemma dropWhile_eq_self (h : ∀ x, xs.head? = some x → p x = false) : xs.dropWhile p = xs := by
  cases xs with
  | nil => rfl
  | cons x xs => rw [List.dropWhile_cons_of_neg (by simp [h x rfl])]

/-- What has nothing to trim at its ends is left as it is. -/
lemma trimBy_eq_self (hhead : ∀ x, xs.head? = some x → p x = false)
    (hlast : ∀ x, xs.getLast? = some x → p x = false) : trimBy p xs = xs := by
  rw [trimBy, dropWhile_eq_self hhead, dropWhile_eq_self, List.reverse_reverse]
  intro x hx
  rw [List.head?_reverse] at hx
  exact hlast x hx

/-- Nothing is left if all of it is trimmed. -/
lemma trimBy_eq_nil_iff : trimBy p xs = [] ↔ ∀ x ∈ xs, p x = true := by
  rw [trimBy, List.reverse_eq_nil_iff, List.dropWhile_eq_nil_iff]
  simp only [List.mem_reverse]
  constructor
  · intro h x hx
    by_contra hnot
    cases hdropped : xs.dropWhile p with
    | nil => exact hnot (List.dropWhile_eq_nil_iff.1 hdropped x hx)
    | cons y rest =>
      have hy : p y = false := head?_dropWhile (by rw [hdropped]; rfl)
      have := h y (by rw [hdropped]; exact List.mem_cons_self)
      rw [hy] at this
      exact Bool.false_ne_true this
  · intro h x hx
    exact h x ((List.dropWhile_suffix p).subset hx)

/-- More to trim in front makes no difference. -/
lemma trimBy_append_left {left : List α} (h : ∀ x ∈ left, p x = true) :
    trimBy p (left ++ xs) = trimBy p xs := by
  rw [trimBy, trimBy, List.dropWhile_append_of_pos h]

/-- A drop ends at an element that stays, whatever stands behind it. -/
lemma dropWhile_append_cons {x : α} (hx : p x = false) (ys : List α) :
    (xs ++ x :: ys).dropWhile p = xs.dropWhile p ++ x :: ys := by
  induction xs with
  | nil => simp [hx]
  | cons y xs ih =>
    cases hy : p y with
    | true => simp only [List.cons_append, List.dropWhile_cons_of_pos hy, ih]
    | false => simp [hy]

/-- Only what is behind the last element to keep, and before the first, is trimmed. -/
lemma trimBy_append_cons {x : α} (hx : p x = false) (ys : List α) :
    trimBy p (xs ++ x :: ys) = xs.dropWhile p ++ x :: (ys.reverse.dropWhile p).reverse := by
  rw [trimBy, dropWhile_append_cons hx, List.reverse_append, List.reverse_cons, List.append_assoc,
    List.singleton_append, dropWhile_append_cons hx]
  simp

/-- More to trim behind makes no difference. -/
lemma trimBy_append_right {right : List α} (h : ∀ x ∈ right, p x = true) :
    trimBy p (xs ++ right) = trimBy p xs := by
  by_cases hall : ∀ x ∈ xs, p x = true
  · rw [trimBy_eq_nil_iff.2 hall, trimBy_eq_nil_iff]
    exact List.forall_mem_append.2 ⟨hall, h⟩
  · push Not at hall
    obtain ⟨x, hmem, hx⟩ := hall
    have hx : p x = false := by simpa using hx
    obtain ⟨before, behind, rfl⟩ := List.append_of_mem hmem
    rw [List.append_assoc, List.cons_append, trimBy_append_cons hx, trimBy_append_cons hx,
      List.reverse_append, List.dropWhile_append_of_pos]
    exact fun y hy => h y (List.mem_reverse.1 hy)

/-- What is dropped in front only lacks the trimming at the end. -/
lemma exists_dropWhile_eq_append (p : α → Bool) (xs : List α) :
    ∃ right, xs.dropWhile p = trimBy p xs ++ right ∧ ∀ x ∈ right, p x = true := by
  refine ⟨((xs.dropWhile p).reverse.takeWhile p).reverse, ?_, ?_⟩
  · rw [trimBy, ← List.reverse_append, List.takeWhile_append_dropWhile, List.reverse_reverse]
  · exact fun x hx => List.mem_takeWhile_imp (List.mem_reverse.1 hx)

/-- A text is what is left when it is trimmed, between what is trimmed away. -/
theorem exists_around_trimBy (p : α → Bool) (xs : List α) :
    ∃ left right, xs = left ++ trimBy p xs ++ right ∧ (∀ x ∈ left, p x = true) ∧
      ∀ x ∈ right, p x = true := by
  obtain ⟨right, hback, hright⟩ := exists_dropWhile_eq_append p xs
  refine ⟨xs.takeWhile p, right, ?_, fun x hx => List.mem_takeWhile_imp hx, hright⟩
  rw [List.append_assoc, ← hback, List.takeWhile_append_dropWhile]

/-- Whether neither end is something of which `p` holds. -/
structure Bare (p : α → Bool) (xs : List α) : Prop where
  head : ∀ x, xs.head? = some x → p x = false
  last : ∀ x, xs.getLast? = some x → p x = false

/-- What is left is what has nothing to trim at its ends, and around it there is nothing else. -/
theorem trimBy_eq_iff {inner : List α} : trimBy p xs = inner ↔ Bare p inner ∧
    ∃ left right, xs = left ++ inner ++ right ∧ (∀ x ∈ left, p x = true) ∧
      ∀ x ∈ right, p x = true := by
  constructor
  · rintro rfl
    exact ⟨⟨fun x => head?_trimBy, fun x => getLast?_trimBy⟩, exists_around_trimBy p xs⟩
  · rintro ⟨hbare, left, right, rfl, hleft, hright⟩
    rw [trimBy_append_right hright, trimBy_append_left hleft]
    exact trimBy_eq_self hbare.head hbare.last

end List

/-! ### Texts -/

/-- A text is its trimmed part with white space around it. -/
lemma exists_around_trim (s : String) :
    ∃ left right, s.toList = left ++ (trim s).toList ++ right ∧ (∀ c ∈ left, isBlank c = true) ∧
      ∀ c ∈ right, isBlank c = true := by
  rw [trim, String.toList_ofList]
  exact exists_around_trimBy isBlank s.toList

/-- Whether there is no white space around the text. -/
def Trimmed (s : String) : Prop := trim s = s

/-- A text without white space at its ends is trimmed. -/
lemma trimmed_of_ends {s : String} (hhead : ∀ c, s.toList.head? = some c → isBlank c = false)
    (hlast : ∀ c, s.toList.getLast? = some c → isBlank c = false) : Trimmed s := by
  rw [Trimmed, trim, trimBy_eq_self hhead hlast, String.ofList_toList]

lemma Trimmed.head {s : String} (h : Trimmed s) {c : Char} (hc : s.toList.head? = some c) :
    isBlank c = false := by
  rw [← h, trim, String.toList_ofList] at hc
  exact head?_trimBy hc

lemma Trimmed.last {s : String} (h : Trimmed s) {c : Char} (hc : s.toList.getLast? = some c) :
    isBlank c = false := by
  rw [← h, trim, String.toList_ofList] at hc
  exact getLast?_trimBy hc

/-- What was trimmed is trimmed. -/
theorem trimmed_trim (s : String) : Trimmed (trim s) := by
  refine trimmed_of_ends (fun c hc => ?_) (fun c hc => ?_)
  · rw [trim, String.toList_ofList] at hc
    exact head?_trimBy hc
  · rw [trim, String.toList_ofList] at hc
    exact getLast?_trimBy hc

/-- Trimmed texts with a comma between them are trimmed. -/
theorem Trimmed.join {s t : String} (hs : Trimmed s) (ht : Trimmed t) :
    Trimmed (s ++ "," ++ t) := by
  have hcomma : isBlank ',' = false := by decide
  have hchars : (s ++ "," ++ t).toList = s.toList ++ ',' :: t.toList := by simp
  refine trimmed_of_ends (fun c hc => ?_) (fun c hc => ?_)
  · rw [hchars, List.head?_append] at hc
    cases hfirst : s.toList.head? with
    | none =>
      rw [hfirst] at hc
      obtain rfl : ',' = c := by simpa using hc
      exact hcomma
    | some d =>
      rw [hfirst, Option.some_or] at hc
      obtain rfl := Option.some.inj hc
      exact hs.head hfirst
  · rw [hchars, List.getLast?_append_cons] at hc
    cases hlast : t.toList.getLast? with
    | none =>
      rw [List.getLast?_eq_none_iff] at hlast
      rw [hlast] at hc
      obtain rfl : ',' = c := by simpa using hc
      exact hcomma
    | some d =>
      obtain rfl : d = c := by
        rw [List.getLast?_cons, hlast] at hc
        simpa using hc
      exact ht.last hlast

/-- A text is blank if nothing of it is left when it is trimmed. -/
lemma isBlankText_iff {s : String} : isBlankText s = true ↔ trim s = "" := by
  have hempty : trim s = "" ↔ trimBy isBlank s.toList = [] := by
    rw [← String.toList_inj, trim, String.toList_ofList]
    rfl
  rw [hempty, trimBy_eq_nil_iff, isBlankText, List.all_eq_true]

end DirectoryExchange.Blank

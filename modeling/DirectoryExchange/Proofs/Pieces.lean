import DirectoryExchange.Pieces
import DirectoryExchange.Proofs.Traversal

/-!
# Runs between separators

What stands at the ends of a list stays at the ends of the first and the last run
(`pieces_append_left`, `pieces_append_right`), and a separator in the middle keeps the runs on both
sides apart (`pieces_append_cons`).  The runs of a list are exactly what it is joined from
(`mapM_pieces_eq_some_iff`).
-/

namespace DirectoryExchange

variable {α β : Type} {separates : α → Bool} {xs ys : List α} {x : α}

/-! ### Pieces -/

/-- An element that does not separate belongs to the first piece. -/
lemma pieces_cons_of_neg (hx : separates x = false) (xs : List α) :
    ∃ piece others, pieces separates xs = piece :: others ∧
      pieces separates (x :: xs) = (x :: piece) :: others := by
  obtain ⟨piece, others, hpieces⟩ := List.exists_cons_of_ne_nil (pieces_ne_nil separates xs)
  refine ⟨piece, others, hpieces, ?_⟩
  rw [pieces, hx, hpieces]
  rfl

/-- Without a separator there is one run. -/
lemma pieces_of_none (h : ∀ x ∈ xs, separates x = false) : pieces separates xs = [xs] := by
  induction xs with
  | nil => rfl
  | cons x xs ih =>
    obtain ⟨hx, hxs⟩ := List.forall_mem_cons.1 h
    rw [pieces, hx, ih hxs]
    rfl

lemma pieces_of_not_mem [BEq α] [LawfulBEq α] {sep : α} (h : sep ∉ xs) :
    pieces (· == sep) xs = [xs] :=
  pieces_of_none fun _ hx => beq_false_of_ne fun heq => h (heq ▸ hx)

/-- A separator keeps what is on its sides apart. -/
theorem pieces_append_cons (hx : separates x = true) :
    pieces separates (xs ++ x :: ys) = pieces separates xs ++ pieces separates ys := by
  induction xs with
  | nil => simp [pieces, hx]
  | cons y xs ih =>
    cases hy : separates y with
    | true =>
      rw [List.cons_append, pieces, if_pos hy, ih, pieces, if_pos hy]
      rfl
    | false =>
      obtain ⟨piece, others, hpieces, hcons⟩ := pieces_cons_of_neg hy xs
      rw [List.cons_append, pieces, ih, hcons, hpieces, hy]
      rfl

/-- What stands in front without a separator belongs to the first piece. -/
lemma pieces_append_left (h : ∀ x ∈ xs, separates x = false) (ys : List α) :
    ∃ piece others, pieces separates ys = piece :: others ∧
      pieces separates (xs ++ ys) = (xs ++ piece) :: others := by
  induction xs with
  | nil =>
    obtain ⟨piece, others, hpieces⟩ := List.exists_cons_of_ne_nil (pieces_ne_nil separates ys)
    exact ⟨piece, others, hpieces, hpieces⟩
  | cons x xs ih =>
    obtain ⟨hx, hxs⟩ := List.forall_mem_cons.1 h
    obtain ⟨piece, others, hys, happend⟩ := ih hxs
    refine ⟨piece, others, hys, ?_⟩
    rw [List.cons_append, pieces, hx, happend]
    rfl

/-- What stands behind without a separator belongs to the last piece. -/
lemma pieces_append_right (h : ∀ y ∈ ys, separates y = false) (xs : List α) :
    ∃ others piece, pieces separates xs = others ++ [piece] ∧
      pieces separates (xs ++ ys) = others ++ [piece ++ ys] := by
  induction xs with
  | nil => exact ⟨[], [], rfl, pieces_of_none h⟩
  | cons x xs ih =>
    obtain ⟨others, piece, hxs, happend⟩ := ih
    cases hx : separates x with
    | true =>
      refine ⟨[] :: others, piece, ?_, ?_⟩
      · rw [pieces, if_pos hx, hxs]
        rfl
      · rw [List.cons_append, pieces, if_pos hx, happend]
        rfl
    | false =>
      cases others with
      | nil =>
        refine ⟨[], x :: piece, ?_, ?_⟩
        · rw [pieces, hx, hxs]
          rfl
        · rw [List.cons_append, pieces, hx, happend]
          rfl
      | cons first others =>
        refine ⟨(x :: first) :: others, piece, ?_, ?_⟩
        · rw [pieces, hx, hxs]
          rfl
        · rw [List.cons_append, pieces, hx, happend]
          rfl

/-- A traversal of the runs that takes no notice of what is put at the ends. -/
theorem mapM_pieces_around {f : List α → Option β} {left right : List α}
    (hleft : ∀ x ∈ left, separates x = false) (hright : ∀ x ∈ right, separates x = false)
    (hf : ∀ piece, f (left ++ piece) = f piece) (hf' : ∀ piece, f (piece ++ right) = f piece) :
    (pieces separates (left ++ xs ++ right)).mapM f = (pieces separates xs).mapM f := by
  obtain ⟨others, last, hinner, houter⟩ := pieces_append_right hright (left ++ xs)
  obtain ⟨first, rest, hxs, hboth⟩ := pieces_append_left hleft xs
  rw [houter, hxs]
  calc (others ++ [last ++ right]).mapM f
      = (others ++ [last]).mapM f := by simp only [List.mapM_append, List.mapM_cons, hf']
    _ = ((left ++ first) :: rest).mapM f := by rw [← hinner, hboth]
    _ = (first :: rest).mapM f := by simp only [List.mapM_cons, hf]

/-- There is one piece more than separators. -/
lemma length_pieces : (pieces separates xs).length = xs.countP separates + 1 := by
  induction xs with
  | nil => rfl
  | cons x xs ih =>
    cases hx : separates x with
    | true => rw [pieces, if_pos hx, List.length_cons, ih, List.countP_cons_of_pos hx]
    | false =>
      obtain ⟨piece, others, hpieces, hcons⟩ := pieces_cons_of_neg hx xs
      rw [hcons, List.countP_cons_of_neg (by simp [hx]), ← ih, hpieces]
      rfl

/-! ### Joined lists -/

/-- Whether a list is made from lists for the elements of `xs`, each of them as `R` says, with
separators between them. -/
inductive Separated (sep : α) (R : β → List α → Prop) : List β → List α → Prop
  /-- One element, and no separator. -/
  | last {x : β} {text : List α} (h : R x text) : Separated sep R [x] text
  /-- An element in front of others. -/
  | cons {x : β} {xs : List β} {text rest : List α} (h : R x text)
      (hrest : Separated sep R xs rest) : Separated sep R (x :: xs) (text ++ sep :: rest)

namespace Separated

variable {sep : α} {R S : β → List α → Prop} {elements : List β} {text : List α}

/-- Elements that are separated are so under a weaker relation. -/
lemma mono (h : Separated sep R elements text) (hRS : ∀ x piece, R x piece → S x piece) :
    Separated sep S elements text := by
  induction h with
  | last h => exact .last (hRS _ _ h)
  | cons h _ ih => exact .cons (hRS _ _ h) ih

/-- Elements are separated alike under relations that say the same of them. -/
lemma iff_of_forall (hRS : ∀ x piece, R x piece ↔ S x piece) :
    Separated sep R elements text ↔ Separated sep S elements text :=
  ⟨fun h => h.mono fun x piece => (hRS x piece).1, fun h => h.mono fun x piece => (hRS x piece).2⟩

/-- What is no separator stands nowhere in the list if it stands in none of its runs. -/
theorem and_not_mem_iff {other : α} (hother : other ≠ sep) :
    Separated sep R elements text ∧ other ∉ text ↔
      Separated sep (fun x piece => R x piece ∧ other ∉ piece) elements text := by
  constructor
  · rintro ⟨h, hnot⟩
    induction h with
    | last h => exact .last ⟨h, hnot⟩
    | cons h _ ih =>
      simp only [List.mem_append, List.mem_cons, not_or] at hnot
      exact .cons ⟨h, hnot.1⟩ (ih hnot.2.2)
  · intro h
    induction h with
    | last h => exact ⟨.last h.1, h.2⟩
    | cons h _ ih =>
      refine ⟨.cons h.1 ih.1, ?_⟩
      simp only [List.mem_append, List.mem_cons, not_or]
      exact ⟨h.2, hother, ih.2⟩

end Separated

/-- A traversal of the runs of a list succeeds exactly if the list is joined from runs on which it
does. -/
theorem mapM_pieces_eq_some_iff [BEq α] [LawfulBEq α] {sep : α} {f : List α → Option β}
    {text : List α} {elements : List β} :
    (pieces (· == sep) text).mapM f = some elements ↔
      Separated sep (fun x piece => f piece = some x ∧ sep ∉ piece) elements text := by
  rw [mapM_eq_some_iff]
  constructor
  · intro h
    induction elements generalizing text with
    | nil => exact absurd (List.map_eq_nil_iff.1 h) (pieces_ne_nil _ _)
    | cons x elements ih =>
      by_cases hmem : sep ∈ text
      · obtain ⟨first, rest, rfl, hfirst⟩ := List.eq_append_cons_of_mem hmem
        rw [pieces_append_cons (by simp), pieces_of_not_mem hfirst,
          List.singleton_append, List.map_cons, List.map_cons] at h
        obtain ⟨hx, helements⟩ := List.cons.inj h
        exact .cons ⟨hx, hfirst⟩ (ih helements)
      · rw [pieces_of_not_mem hmem, List.map_singleton, List.map_cons] at h
        obtain ⟨hx, hnil⟩ := List.cons.inj h
        obtain rfl := List.map_eq_nil_iff.1 hnil.symm
        exact .last ⟨hx, hmem⟩
  · intro h
    induction h with
    | last h =>
      rw [pieces_of_not_mem h.2, List.map_singleton, h.1]
      rfl
    | cons h _ ih =>
      rw [pieces_append_cons (by simp), pieces_of_not_mem h.2,
        List.singleton_append, List.map_cons, h.1, ih]
      rfl

/-! ### Cuts -/

/-- The cut is not in front of the first separator. -/
lemma cutWhere?_append_left (h : ∀ x ∈ xs, separates x = false) :
    cutWhere? separates (xs ++ ys) =
      (cutWhere? separates ys).map fun (before, behind) => (xs ++ before, behind) := by
  induction xs with
  | nil => simp
  | cons x xs ih =>
    obtain ⟨hx, hxs⟩ := List.forall_mem_cons.1 h
    rw [List.cons_append, cutWhere?, hx, ih hxs, Option.map_map]
    rfl

/-- Where a list is cut. -/
theorem cutWhere?_eq_some_iff {before behind : List α} :
    cutWhere? separates xs = some (before, behind) ↔
      ∃ x, separates x = true ∧ (∀ y ∈ before, separates y = false) ∧
        xs = before ++ x :: behind := by
  constructor
  · intro h
    induction xs generalizing before with
    | nil => simp [cutWhere?] at h
    | cons x xs ih =>
      rw [cutWhere?] at h
      cases hx : separates x with
      | true =>
        rw [if_pos hx] at h
        obtain ⟨rfl, rfl⟩ := Prod.mk.inj (Option.some.inj h)
        exact ⟨x, hx, fun y hy => absurd hy List.not_mem_nil, rfl⟩
      | false =>
        rw [if_neg (by simp [hx]), Option.map_eq_some_iff] at h
        obtain ⟨⟨before', behind'⟩, hcut, heq⟩ := h
        obtain ⟨rfl, rfl⟩ := Prod.mk.inj heq
        obtain ⟨y, hy, hbefore, rfl⟩ := ih hcut
        exact ⟨y, hy, List.forall_mem_cons.2 ⟨hx, hbefore⟩, rfl⟩
  · rintro ⟨x, hx, hbefore, rfl⟩
    rw [cutWhere?_append_left hbefore, cutWhere?, if_pos hx]
    simp

/-- What stands behind without a separator belongs to the part behind the cut. -/
lemma cutWhere?_append_right (h : ∀ y ∈ ys, separates y = false) :
    cutWhere? separates (xs ++ ys) =
      (cutWhere? separates xs).map fun (before, behind) => (before, behind ++ ys) := by
  induction xs with
  | nil =>
    induction ys with
    | nil => rfl
    | cons y ys ih =>
      obtain ⟨hy, hys⟩ := List.forall_mem_cons.1 h
      simp [cutWhere?, hy] at ih ⊢
      exact ih hys
  | cons x xs ih =>
    rw [List.cons_append, cutWhere?, cutWhere?, ih]
    split
    · rfl
    · rw [Option.map_map, Option.map_map]
      rfl

/-- What comes behind a cut does not move it. -/
lemma cutWhere?_append_of_some {before behind : List α}
    (h : cutWhere? separates xs = some (before, behind)) (ys : List α) :
    cutWhere? separates (xs ++ ys) = some (before, behind ++ ys) := by
  induction xs generalizing before with
  | nil => simp [cutWhere?] at h
  | cons x xs ih =>
    rw [List.cons_append, cutWhere?]
    rw [cutWhere?] at h
    split
    · next hx =>
      rw [if_pos hx] at h
      obtain ⟨rfl, rfl⟩ := Prod.mk.inj (Option.some.inj h)
      rfl
    · next hx =>
      rw [if_neg hx, Option.map_eq_some_iff] at h
      obtain ⟨⟨before', behind'⟩, hcut, heq⟩ := h
      obtain ⟨rfl, rfl⟩ := Prod.mk.inj heq
      rw [ih hcut]
      rfl

end DirectoryExchange

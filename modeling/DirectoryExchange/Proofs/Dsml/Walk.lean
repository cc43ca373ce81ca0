import DirectoryExchange.Dsml.Reader
import Mathlib.Tactic.Lemma

/-!
# Walks over nodes

The reader walks over the nodes of a document and gives outcomes on the way.  A walk is put
together from walks over parts (`Walks.append`) and can be taken apart again (`Walks.split`), and it
does not matter into how many nodes character data is cut (`Walks.join`).
-/

namespace DirectoryExchange.Dsml

/-- From the first state the nodes lead to the second and give these outcomes on the way. -/
inductive Walks : State → List Xml.Node → List (Except ParseError ChangeRecord) → State → Prop
  | nil (s : State) : Walks s [] [] s
  | proceed {s t u : State} {node : Xml.Node} {nodes : List Xml.Node}
      {outcomes : List (Except ParseError ChangeRecord)} (step : s.step node = .proceed t)
      (rest : Walks t nodes outcomes u) : Walks s (node :: nodes) outcomes u
  | give {s t u : State} {node : Xml.Node} {nodes : List Xml.Node}
      {outcome : Except ParseError ChangeRecord}
      {outcomes : List (Except ParseError ChangeRecord)} (step : s.step node = .give outcome t)
      (rest : Walks t nodes outcomes u) : Walks s (node :: nodes) (outcome :: outcomes) u

namespace Walks

variable {s t u : State} {nodes more : List Xml.Node}
  {outcomes others : List (Except ParseError ChangeRecord)}

/-- The outcomes of two parts are those of the first and then those of the second. -/
theorem append (hfirst : Walks s nodes outcomes t) (hsecond : Walks t more others u) :
    Walks s (nodes ++ more) (outcomes ++ others) u := by
  induction hfirst with
  | nil => exact hsecond
  | proceed step _ ih => exact .proceed step (ih hsecond)
  | give step _ ih => exact .give step (ih hsecond)

/-- A single step that goes on. -/
lemma single {node : Xml.Node} (h : s.step node = .proceed t) : Walks s [node] [] t :=
  .proceed h (.nil t)

/-- A walk over two parts is one over the first and then one over the second. -/
theorem split (h : Walks s (nodes ++ more) outcomes u) :
    ∃ t first second,
      outcomes = first ++ second ∧ Walks s nodes first t ∧ Walks t more second u := by
  induction nodes generalizing s outcomes with
  | nil => exact ⟨s, [], outcomes, rfl, .nil s, h⟩
  | cons node nodes ih =>
    cases h with
    | proceed step rest =>
      obtain ⟨t, first, second, rfl, hfirst, hsecond⟩ := ih rest
      exact ⟨t, first, second, rfl, .proceed step hfirst, hsecond⟩
    | give step rest =>
      obtain ⟨t, first, second, rfl, hfirst, hsecond⟩ := ih rest
      exact ⟨t, _ :: first, second, rfl, .give step hfirst, hsecond⟩

/-- There is one walk over the nodes. -/
theorem unique {others : List (Except ParseError ChangeRecord)} (h : Walks s nodes outcomes t)
    (h' : Walks s nodes others u) : others = outcomes ∧ u = t := by
  induction h generalizing others with
  | nil s =>
    cases h'
    exact ⟨rfl, rfl⟩
  | proceed step _ ih =>
    cases h' with
    | proceed step' rest' =>
      obtain rfl := Step.proceed.inj (step.symm.trans step')
      exact ih rest'
    | give step' _ => cases step.symm.trans step'
  | give step _ ih =>
    cases h' with
    | proceed step' _ => cases step.symm.trans step'
    | give step' rest' =>
      obtain ⟨rfl, rfl⟩ := Step.give.inj (step.symm.trans step')
      obtain ⟨rfl, rfl⟩ := ih rest'
      exact ⟨rfl, rfl⟩

/-- A walk over more nodes gives what a walk over the first ones gives, and then possibly more. -/
lemma isPrefix (h : Walks s nodes outcomes t) (h' : Walks s more others u)
    (hnodes : nodes <+: more) : outcomes <+: others := by
  obtain ⟨rest, rfl⟩ := hnodes
  obtain ⟨v, first, second, rfl, hfirst, -⟩ := h'.split
  obtain ⟨rfl, -⟩ := h.unique hfirst
  exact List.prefix_append _ _

end Walks

/-- Behind the root element there is no way back. -/
lemma step_trailing {s : State} (h : s.place = .trailing) (node : Xml.Node) :
    s.step node = .stray ∨ ∃ t, s.step node = .proceed t ∧ t.place = .trailing := by
  unfold State.step
  cases hskip : s.skipping with
  | zero =>
    cases node with
    | opened tag empty => exact .inl (by simp only [State.enter, h])
    | closed => exact .inl (by simp only [State.leave, h])
    | text value => exact .inr ⟨_, rfl, by rw [State.read, h]; exact h⟩
  | succ depth =>
    cases node with
    | opened tag empty => exact .inr ⟨_, rfl, by cases empty <;> exact h⟩
    | closed => exact .inr ⟨_, rfl, h⟩
    | text value => exact .inr ⟨_, rfl, h⟩

/-- A walk does not come back from behind the root element. -/
lemma Walks.trailing {s t : State} {nodes : List Xml.Node}
    {outcomes : List (Except ParseError ChangeRecord)} (h : Walks s nodes outcomes t)
    (hs : s.place = .trailing) : t.place = .trailing := by
  induction h with
  | nil => exact hs
  | @proceed s _ _ node _ _ step _ ih =>
    rcases step_trailing hs node with hstray | ⟨v, hv, hplace⟩
    · cases hstray.symm.trans step
    · obtain rfl := Step.proceed.inj (hv.symm.trans step)
      exact ih hplace
  | @give s _ _ node _ _ _ step _ _ =>
    rcases step_trailing hs node with hstray | ⟨v, hv, -⟩
    · cases hstray.symm.trans step
    · cases hv.symm.trans step

/-- The state behind character data, which a foreign element swallows. -/
def State.hear (s : State) (text : Bytes) : State := if s.skipping = 0 then s.read text else s

/-- Character data is heard wherever it stands. -/
lemma step_text (s : State) (text : Bytes) : s.step (.text text) = .proceed (s.hear text) := by
  unfold State.step State.hear
  split
  · next hskip => rw [if_pos hskip]
  · next depth hskip => rw [if_neg (by omega)]

/-- Character data in two parts is heard as one. -/
lemma hear_hear (s : State) (text more : Bytes) :
    (s.hear text).hear more = s.hear (text ++ more) := by
  unfold State.hear
  by_cases hskip : s.skipping = 0
  · have hread : (s.read text).skipping = 0 := by
      unfold State.read
      split <;> exact hskip
    rw [if_pos hskip, if_pos hread, if_pos hskip]
    obtain ⟨place, skipping, count, events⟩ := s
    unfold State.read
    cases place <;> simp
  · simp only [hskip, if_false]

/-- Empty character data is not heard. -/
lemma hear_nil (s : State) : s.hear [] = s := by
  unfold State.hear State.read
  split
  · obtain ⟨place, skipping, count, events⟩ := s
    cases place <;> simp
  · rfl

/-- Character data may be cut anywhere. -/
theorem Walks.join {s u : State} {text more : Bytes} {nodes : List Xml.Node}
    {outcomes : List (Except ParseError ChangeRecord)}
    (h : Walks s (.text text :: .text more :: nodes) outcomes u) :
    Walks s (.text (text ++ more) :: nodes) outcomes u := by
  cases h with
  | proceed step rest =>
    rw [step_text] at step
    cases step
    cases rest with
    | proceed step rest =>
      rw [step_text] at step
      cases step
      refine .proceed (step_text _ _) ?_
      rwa [← hear_hear]
    | give step => simp [step_text] at step
  | give step => simp [step_text] at step

/-- A walk over empty character data is one without it. -/
theorem Walks.of_text_nil {s u : State} {nodes : List Xml.Node}
    {outcomes : List (Except ParseError ChangeRecord)}
    (h : Walks s (.text [] :: nodes) outcomes u) : Walks s nodes outcomes u := by
  cases h with
  | proceed step rest =>
    rw [step_text] at step
    cases step
    rwa [hear_nil] at rest
  | give step => simp [step_text] at step

/-- What the nodes of a walk give is given by the reader, and then what follows them. -/
theorem outcomes_feedNodes {s t : State} {nodes : List Xml.Node}
    {outcomes : List (Except ParseError ChangeRecord)} (h : Walks s nodes outcomes t)
    {placed : List Xml.PlacedNode} (hplaced : placed.map (·.node) = nodes) (whole : Bool)
    (extent : Nat) (rest : List Xml.PlacedNode) :
    (feedNodes whole extent s (placed ++ rest)).items.map (·.outcome) =
      outcomes.map (·.mapError ReadError.parse) ++
        (feedNodes whole extent t rest).items.map (·.outcome) := by
  induction h generalizing placed with
  | nil s =>
    obtain rfl := List.map_eq_nil_iff.1 hplaced
    rfl
  | proceed step _ ih =>
    obtain ⟨first, placed, rfl, hfirst, hplaced⟩ := List.map_eq_cons_iff.1 hplaced
    rw [List.cons_append, feedNodes, hfirst, step]
    exact ih hplaced
  | give step _ ih =>
    obtain ⟨first, placed, rfl, hfirst, hplaced⟩ := List.map_eq_cons_iff.1 hplaced
    rw [List.cons_append, feedNodes, hfirst, step]
    simp only [Feed.items_cons, List.map_cons, List.cons_append]
    rw [ih hplaced]

/-- The place does not change with character data, but for the text of a value. -/
lemma place_hear_ne {s : State} (h : s.place ≠ .trailing) (text : Bytes) :
    (s.hear text).place ≠ .trailing := by
  unfold State.hear State.read
  split
  · split
    · exact nofun
    · exact h
  · exact h

/-- Where a document ends inside the root element, whatever character data there is at its end, a
fault is given, and nothing else. -/
lemma outcomes_feedNodes_texts {s : State} (h : s.place ≠ .trailing) (whole : Bool) (extent : Nat)
    {texts : List Xml.PlacedNode} (htexts : ∀ x ∈ texts, ∃ value, x.node = .text value) :
    ∃ e : ParseError, e.mayContinue = false ∧
      (feedNodes whole extent s texts).items.map (·.outcome) = [.error (.parse e)] := by
  induction texts generalizing s with
  | nil =>
    rw [feedNodes, endFeed, if_neg h]
    split
    · exact ⟨_, rfl, rfl⟩
    · exact ⟨_, rfl, rfl⟩
  | cons x texts ih =>
    obtain ⟨⟨value, hvalue⟩, htexts⟩ := List.forall_mem_cons.1 htexts
    rw [feedNodes, hvalue, step_text]
    exact ih (place_hear_ne h value) htexts

end DirectoryExchange.Dsml

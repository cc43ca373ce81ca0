import DirectoryExchange.Proofs.Xml.Markup

/-!
# Comments, instructions and literal sections

Each of these holds any octets but those that end it.  Comments and instructions give no piece
(`Comment.lexes`, `Instruction.lexes`), and a literal section gives what it holds (`Literal.lexes`).
-/

namespace DirectoryExchange.Xml

/-! ### Comments -/

/-- A comment, without the marks around it. -/
structure Comment where
  /-- The octets. -/
  raw : Bytes
  /-- There are no two hyphens in a row, nor one in front of those at the end. -/
  no_hyphens : ¬ [hyphen, hyphen] <:+: raw ++ [hyphen]

/-- The comment with its marks. -/
def Comment.octets (c : Comment) : Bytes :=
  openBracket :: exclamationMark :: hyphen :: hyphen :: c.raw ++ [hyphen, hyphen, closeBracket]

/-- A comment goes on as long as two hyphens and a bracket do not follow each other. -/
lemma lexes_comment {raw : Bytes} {hyphens : Nat}
    (h : ¬ [hyphen, hyphen] <:+: List.replicate hyphens hyphen ++ (raw ++ [hyphen])) :
    Lexes (.comment hyphens) raw [] (.comment 0) := by
  -- the reader counts hyphens: two before a bracket would end the comment
  induction raw generalizing hyphens with
  | nil =>
    obtain rfl : hyphens = 0 := by
      cases hyphens with
      | zero => rfl
      | succ n =>
        refine absurd ⟨List.replicate n hyphen, [], ?_⟩ h
        rw [List.replicate_succ']
        simp
    exact Lexes.nil _
  | cons b raw ih =>
    by_cases hb : b = hyphen
    · have hstep : lexStep (.comment hyphens) b = (none, .comment (hyphens + 1)) := by
        rw [lexStep, if_pos hb]
      rw [hb] at h
      refine (Lexes.single hstep).append (ih ?_)
      rwa [List.replicate_succ', List.append_assoc, List.singleton_append]
    · have hfew : ¬ 2 ≤ hyphens := by
        intro hmany
        obtain ⟨n, rfl⟩ := Nat.exists_eq_add_of_le' hmany
        refine h ⟨List.replicate n hyphen, b :: raw ++ [hyphen], ?_⟩
        rw [List.replicate_succ', List.replicate_succ']
        simp
      have hstep : lexStep (.comment hyphens) b = (none, .comment 0) := by
        rw [lexStep, if_neg hb, if_neg fun h => hfew h.2]
      refine (Lexes.single hstep).append (ih fun hwithin => h ?_)
      rw [List.replicate_zero, List.nil_append] at hwithin
      exact hwithin.trans ⟨List.replicate hyphens hyphen ++ [b], [], by simp⟩

/-- A comment gives no piece. -/
theorem Comment.lexes (c : Comment) (sofar : Bytes) :
    Lexes (.text sofar) c.octets (dataOf sofar) (.text []) := by
  have hbegin : Lexes .bracket [exclamationMark, hyphen, hyphen] [] (.comment 0) :=
    fun _ => ⟨rfl, rfl⟩
  have hraw : Lexes (.comment 0) c.raw [] (.comment 0) :=
    lexes_comment c.no_hyphens
  have hend : Lexes (.comment 0) [hyphen, hyphen, closeBracket] [] (.text []) :=
    fun _ => ⟨rfl, rfl⟩
  have := (((lexes_openBracket sofar).append hbegin).append hraw).append hend
  simpa [octets] using this

/-! ### Instructions -/

/-- An instruction, without the marks around it. -/
structure Instruction where
  /-- The octets. -/
  raw : Bytes
  /-- There are some, -/
  raw_ne : raw ≠ []
  /-- which do not begin with a bracket, -/
  no_bracket : raw.head? ≠ some closeBracket
  /-- and the instruction does not end before it is over. -/
  no_end : ¬ [questionMark, closeBracket] <:+: raw

/-- The instruction with its marks. -/
def Instruction.octets (i : Instruction) : Bytes :=
  openBracket :: questionMark :: i.raw ++ [questionMark, closeBracket]

/-- An instruction goes on up to its closing mark. -/
lemma lexes_instruction {raw : Bytes} {atMark : Bool}
    (h : ¬ [questionMark, closeBracket] <:+: (if atMark then [questionMark] else []) ++ raw) :
    ∃ atMark', Lexes (.instruction atMark) raw [] (.instruction atMark') := by
  induction raw generalizing atMark with
  | nil => exact ⟨atMark, Lexes.nil _⟩
  | cons b raw ih =>
    have hstep : lexStep (.instruction atMark) b = (none, .instruction (b = questionMark)) := by
      rw [lexStep, if_neg]
      rintro ⟨rfl, hmark⟩
      rw [hmark] at h
      exact h ⟨[], raw, rfl⟩
    have hrest : ¬ [questionMark, closeBracket] <:+:
        (if decide (b = questionMark) then [questionMark] else []) ++ raw := by
      intro hwithin
      refine h (hwithin.trans ?_)
      by_cases hb : b = questionMark
      · rw [hb]
        exact ⟨if atMark then [questionMark] else [], [], by simp⟩
      · exact ⟨(if atMark then [questionMark] else []) ++ [b], [], by simp [hb]⟩
    obtain ⟨atMark', hraw⟩ := ih hrest
    exact ⟨atMark', (Lexes.single hstep).append hraw⟩

/-- An instruction gives no piece. -/
theorem Instruction.lexes (i : Instruction) (sofar : Bytes) :
    Lexes (.text sofar) i.octets (dataOf sofar) (.text []) := by
  obtain ⟨first, rest, hraw⟩ := List.exists_cons_of_ne_nil i.raw_ne
  have hbegin : Lexes .bracket [questionMark] [] .instructionOpening := fun _ => ⟨rfl, rfl⟩
  have hfirst : Lexes .instructionOpening [first] [] (.instruction (first = questionMark)) := by
    have hne : first ≠ closeBracket := by
      rintro rfl
      exact i.no_bracket (by rw [hraw]; rfl)
    have hstep : lexStep .instructionOpening first =
        (none, .instruction (first = questionMark)) := by
      rw [lexStep, if_neg hne]
    exact Lexes.single hstep
  obtain ⟨atMark, hrest⟩ : ∃ atMark,
      Lexes (.instruction (first = questionMark)) rest [] (.instruction atMark) := by
    refine lexes_instruction fun hwithin => i.no_end (hwithin.trans ?_)
    rw [hraw]
    by_cases hmark : first = questionMark
    · simp [hmark]
    · exact ⟨[first], [], by simp [hmark]⟩
  have hend : Lexes (.instruction atMark) [questionMark, closeBracket] [] (.text []) := by
    cases atMark <;> exact fun _ => ⟨rfl, rfl⟩
  have := ((((lexes_openBracket sofar).append hbegin).append hfirst).append hrest).append hend
  simpa [octets, hraw] using this

/-! ### Literal sections -/

/-- A literal section, without the marks around it. -/
structure Literal where
  /-- The octets. -/
  raw : Bytes
  /-- The section does not end before it is over. -/
  no_end : ¬ [squareBracket, squareBracket, closeBracket] <:+: raw

/-- What opens a literal section, behind its bracket. -/
def literalOpening : Bytes := exclamationMark :: 0x5B :: literalKeyword

/-- The literal section with its marks. -/
def Literal.octets (l : Literal) : Bytes :=
  openBracket :: literalOpening ++ l.raw ++ [squareBracket, squareBracket, closeBracket]

/-- An octet of a literal section belongs to it unless it ends it. -/
lemma lexStep_literal {b : UInt8} {sofar : Bytes}
    (h : ∀ content, b = closeBracket → sofar ≠ squareBracket :: squareBracket :: content) :
    lexStep (.literal sofar) b = (none, .literal (b :: sofar)) := by
  rcases sofar with _ | ⟨x, _ | ⟨y, content⟩⟩
  · rfl
  · rfl
  · rw [lexStep, if_neg]
    rintro ⟨hb, rfl, rfl⟩
    exact h content hb rfl

/-- A literal section goes on up to its closing brackets. -/
lemma lexes_literal {raw sofar : Bytes}
    (h : ¬ [squareBracket, squareBracket, closeBracket] <:+: sofar.reverse ++ raw) :
    Lexes (.literal sofar) raw [] (.literal (raw.reverse ++ sofar)) := by
  induction raw generalizing sofar with
  | nil => exact Lexes.nil _
  | cons b raw ih =>
    have hstep : lexStep (.literal sofar) b = (none, .literal (b :: sofar)) := by
      refine lexStep_literal ?_
      rintro content rfl rfl
      exact h ⟨content.reverse, raw, by simp⟩
    have hnext : ¬ [squareBracket, squareBracket, closeBracket] <:+:
        (b :: sofar).reverse ++ raw := by
      simpa using h
    simpa using (Lexes.single hstep).append (ih hnext)

/-- A literal section gives what it holds. -/
theorem Literal.lexes (l : Literal) (sofar : Bytes) :
    Lexes (.text sofar) l.octets (dataOf sofar ++ [.literal l.raw]) (.text []) := by
  have hbegin : Lexes .bracket literalOpening [] (.literal []) := fun _ => ⟨rfl, rfl⟩
  have hraw : Lexes (.literal []) l.raw [] (.literal l.raw.reverse) := by
    have hend : ¬ [squareBracket, squareBracket, closeBracket] <:+: [].reverse ++ l.raw := l.no_end
    simpa using lexes_literal hend
  have hfirst : ∀ sofar, Lexes (.literal sofar) [squareBracket] []
      (.literal (squareBracket :: sofar)) := by
    intro sofar
    refine Lexes.single (lexStep_literal ?_)
    exact fun _ h => absurd h (by decide)
  have hend : ∀ sofar, Lexes (.literal (squareBracket :: squareBracket :: sofar)) [closeBracket]
      [.literal sofar.reverse] (.text []) := fun _ _ => ⟨rfl, rfl⟩
  have := (((((lexes_openBracket sofar).append hbegin).append hraw).append (hfirst _)).append
    (hfirst _)).append (hend _)
  simpa [octets] using this

end DirectoryExchange.Xml

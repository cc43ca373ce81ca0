import DirectoryExchange.Proofs.Ldif.Layout

/-!
# Documents in any layout

A document is laid out freely: its logical lines are cut into pieces, comments stand before lines
and blank lines between records, and each physical line ends in one of two ways, the last one
perhaps not at all.  Whatever the ends, a document is cut into its physical lines again
(`exists_cutLines_endLines`).
-/

namespace DirectoryExchange.Ldif

/-! ### Documents -/

/-- How a physical line ends. -/
inductive LineEnd where
  /-- With a line feed. -/
  | lineFeed
  /-- With a carriage return and a line feed. -/
  | returnLineFeed
  deriving DecidableEq, Repr

/-- The octets in front of the line feed. -/
def LineEnd.mark : LineEnd → Bytes
  | lineFeed => []
  | returnLineFeed => [Bytes.carriageReturn]

/-- The octets of the lines with their ends, where `ends n` is the end of line number `n` and
`number` lines come before. -/
def endLines (ends : Nat → LineEnd) (number : Nat) : List Bytes → Bytes
  | [] => []
  | line :: rest =>
    line ++ (ends (number + 1)).mark ++ Bytes.lineFeed :: endLines ends (number + 1) rest

/-- The physical lines of pieces that go on with a line. -/
def continuing (pieces : List Bytes) : List Bytes := pieces.map fun piece => Bytes.space :: piece

/-- A comment.  It may go on for several physical lines. -/
structure Comment where
  /-- The octets behind the number sign. -/
  text : Bytes
  /-- The pieces that go on with it. -/
  continued : List Bytes
  /-- No line ends within it. -/
  unbroken : ∀ piece ∈ text :: continued, Bytes.lineFeed ∉ piece

/-- The physical lines of the comment. -/
def Comment.lines (c : Comment) : List Bytes := (0x23 :: c.text) :: continuing c.continued

/-- A logical line, cut into pieces behind its first octet. -/
structure CutLine where
  /-- The first octet. -/
  first : UInt8
  /-- The rest of the first piece. -/
  rest : Bytes
  /-- The further pieces, any of which may be empty. -/
  continued : List Bytes
  /-- The line does not go on with another one. -/
  not_continuing : first ≠ Bytes.space
  /-- The line is no comment. -/
  not_comment : first ≠ 0x23
  /-- No line ends within it. -/
  unbroken : ∀ piece ∈ (first :: rest) :: continued,
    Bytes.lineFeed ∉ piece ∧ Bytes.carriageReturn ∉ piece

namespace CutLine

/-- The logical line. -/
def text (l : CutLine) : Bytes := l.first :: l.rest ++ l.continued.flatten

/-- The physical lines. -/
def lines (l : CutLine) : List Bytes := (l.first :: l.rest) :: continuing l.continued

end CutLine

/-- The physical lines of comments. -/
def commentLines (comments : List Comment) : List Bytes := comments.flatMap Comment.lines

/-- A logical line with comments in front of it. -/
structure CommentedLine where
  /-- The comments. -/
  comments : List Comment
  /-- The line. -/
  line : CutLine

/-- The physical lines of the comments and the line. -/
def CommentedLine.lines (l : CommentedLine) : List Bytes := commentLines l.comments ++ l.line.lines

/-- Blank lines.  Of each there are the comments in front of it. -/
abbrev Gap := List (List Comment)

/-- The physical lines of the gap. -/
def Gap.lines (gap : Gap) : List Bytes := gap.flatMap fun comments => commentLines comments ++ [[]]

/-- A record of logical lines with the blank lines behind it. -/
structure LaidRecord where
  /-- The logical lines. -/
  logical : List CommentedLine
  /-- There is one at least. -/
  logical_ne_nil : logical ≠ []
  /-- The blank lines behind them. -/
  gap : Gap

/-- The physical lines of the record and of the gap behind it. -/
def LaidRecord.lines (r : LaidRecord) : List Bytes :=
  r.logical.flatMap CommentedLine.lines ++ r.gap.lines

/-- A document. -/
structure Document where
  /-- The blank lines at the beginning. -/
  opening : Gap
  /-- The records. -/
  records : List LaidRecord
  /-- There is a blank line between any two records. -/
  separated : ∀ r ∈ records.dropLast, r.gap ≠ []
  /-- The comments at the end. -/
  closing : List Comment

/-- The logical lines behind `number` physical lines, each with the number of the physical line on
which it begins. -/
def numberLines (number : Nat) : List CommentedLine → List LogicalLine
  | [] => []
  | l :: rest =>
    ⟨number + (commentLines l.comments).length + 1, l.line.text⟩ ::
      numberLines (number + l.lines.length) rest

/-- The logical lines of the records behind `number` physical lines. -/
def numberRecords (number : Nat) : List LaidRecord → List (List LogicalLine)
  | [] => []
  | r :: rest => numberLines number r.logical :: numberRecords (number + r.lines.length) rest

namespace Document

/-- The physical lines of the document. -/
def lines (d : Document) : List Bytes :=
  d.opening.lines ++ (d.records.flatMap LaidRecord.lines ++ commentLines d.closing)

/-- The octets of the document.  Its last line has an end if `ended`. -/
def bytes (d : Document) (ends : Nat → LineEnd) (ended : Bool) : Bytes :=
  if ended then endLines ends 0 d.lines
  else endLines ends 0 d.lines.dropLast ++ d.lines.getLast?.getD []

/-- The logical lines of each record. -/
def logical (d : Document) : List (List LogicalLine) :=
  numberRecords d.opening.lines.length d.records

end Document

/-! ### Physical lines -/

/-- That lines are read as the lines behind `number` others.  A carriage return at the end of a line
may be lost. -/
inductive Shows : Nat → List Bytes → List PhysicalLine → Prop
  /-- There are no lines. -/
  | nil {number : Nat} : Shows number [] []
  /-- There is a first line. -/
  | cons {number : Nat} {line : Bytes} {lines : List Bytes} {l : PhysicalLine}
      {shown : List PhysicalLine} (hnumber : l.number = number + 1)
      (htext : l.text = line ∨ l.text = dropReturn line) (hrest : Shows (number + 1) lines shown) :
      Shows number (line :: lines) (l :: shown)

namespace Shows

variable {number : Nat} {lines more : List Bytes} {shown : List PhysicalLine}

/-- Lines in two parts are shown part by part, the numbers going on. -/
lemma append {shownMore : List PhysicalLine} (h : Shows number lines shown)
    (hmore : Shows (number + lines.length) more shownMore) :
    Shows number (lines ++ more) (shown ++ shownMore) := by
  induction h with
  | nil => exact hmore
  | cons hnumber htext _ ih =>
    refine .cons hnumber htext (ih ?_)
    rwa [List.length_cons, Nat.add_comm _ 1, ← Nat.add_assoc] at hmore

/-- What shows two parts of lines is cut where they are. -/
lemma exists_of_append (h : Shows number (lines ++ more) shown) :
    ∃ front back, shown = front ++ back ∧ Shows number lines front ∧
      Shows (number + lines.length) more back := by
  induction lines generalizing number shown with
  | nil => exact ⟨[], shown, rfl, .nil, h⟩
  | cons line lines ih =>
    cases h with
    | cons hnumber htext hrest =>
      obtain ⟨front, back, rfl, hfront, hback⟩ := ih hrest
      refine ⟨_ :: front, back, rfl, .cons hnumber htext hfront, ?_⟩
      rwa [List.length_cons, Nat.add_comm _ 1, ← Nat.add_assoc]

/-- The first line is shown as it is or without its return, and the others behind it. -/
lemma exists_of_cons {line : Bytes} (h : Shows number (line :: lines) shown) :
    ∃ l rest, shown = l :: rest ∧ l.number = number + 1 ∧
      (l.text = line ∨ l.text = dropReturn line) ∧ Shows (number + 1) lines rest := by
  cases h with
  | cons hnumber htext hrest => exact ⟨_, _, rfl, hnumber, htext, hrest⟩

end Shows

/-- The return in front of a line feed belongs to the mark, or was the last octet of the line. -/
lemma dropReturn_mark (line : Bytes) (e : LineEnd) :
    dropReturn (line ++ e.mark) = line ∨ dropReturn (line ++ e.mark) = dropReturn line := by
  cases e with
  | lineFeed => simp [LineEnd.mark]
  | returnLineFeed => simp [LineEnd.mark, dropReturn]

/-- Lines are cut at their ends. -/
lemma exists_cutLines_endLines {lines : List Bytes} (h : ∀ line ∈ lines, Bytes.lineFeed ∉ line)
    {tail : Bytes} (htail : Bytes.lineFeed ∉ tail) (ends : Nat → LineEnd) (number : Nat) :
    ∃ cut, cutLines (endLines ends number lines ++ tail) = (cut, tail) ∧
      cut.length = lines.length ∧
      ∀ start position, Shows start lines (countLines start position cut) := by
  induction lines generalizing number with
  | nil => exact ⟨[], cutLines_of_not_mem htail, rfl, fun _ _ => .nil⟩
  | cons line lines ih =>
    obtain ⟨hline, hlines⟩ := List.forall_mem_cons.1 h
    obtain ⟨cut, hcut, hlength, hshows⟩ := ih hlines (number + 1)
    have hmark : Bytes.lineFeed ∉ line ++ (ends (number + 1)).mark := by
      rw [List.mem_append, not_or]
      refine ⟨hline, ?_⟩
      cases ends (number + 1) <;> decide
    refine ⟨(line ++ (ends (number + 1)).mark) :: cut, ?_, by simp [hlength], fun start position =>
      .cons rfl (dropReturn_mark line _) (hshows _ _)⟩
    rw [endLines, List.append_assoc, List.cons_append, cutLines_line hmark, hcut]

/-! ### The lines of a document -/

/-- Continuation lines of pieces without line feeds have none. -/
lemma lineFeed_not_mem_continuing {pieces : List Bytes}
    (h : ∀ piece ∈ pieces, Bytes.lineFeed ∉ piece) :
    ∀ line ∈ continuing pieces, Bytes.lineFeed ∉ line := by
  intro line hline
  obtain ⟨piece, hpiece, rfl⟩ := List.mem_map.1 hline
  rw [List.mem_cons, not_or]
  exact ⟨by decide, h piece hpiece⟩

/-- Comment lines have no line feed. -/
lemma lineFeed_not_mem_commentLines (comments : List Comment) :
    ∀ line ∈ commentLines comments, Bytes.lineFeed ∉ line := by
  intro line hline
  obtain ⟨comment, -, hline⟩ := List.mem_flatMap.1 hline
  obtain ⟨htext, hcontinued⟩ := List.forall_mem_cons.1 comment.unbroken
  rcases List.mem_cons.1 hline with rfl | hline
  · rw [List.mem_cons, not_or]
    exact ⟨by decide, htext⟩
  · exact lineFeed_not_mem_continuing hcontinued line hline

lemma lineFeed_not_mem_logical (l : CommentedLine) :
    ∀ line ∈ l.lines, Bytes.lineFeed ∉ line := by
  intro line hline
  obtain ⟨hfirst, hcontinued⟩ := List.forall_mem_cons.1 l.line.unbroken
  rcases List.mem_append.1 hline with hline | hline
  · exact lineFeed_not_mem_commentLines l.comments line hline
  · rcases List.mem_cons.1 hline with rfl | hline
    · exact hfirst.1
    · exact lineFeed_not_mem_continuing (fun piece hpiece => (hcontinued piece hpiece).1) line hline

lemma lineFeed_not_mem_gap (gap : Gap) : ∀ line ∈ gap.lines, Bytes.lineFeed ∉ line := by
  intro line hline
  obtain ⟨comments, -, hline⟩ := List.mem_flatMap.1 hline
  rcases List.mem_append.1 hline with hline | hline
  · exact lineFeed_not_mem_commentLines comments line hline
  · rw [List.mem_singleton.1 hline]
    exact List.not_mem_nil

/-- No line of a document has a line feed in it. -/
lemma Document.lineFeed_not_mem (d : Document) : ∀ line ∈ d.lines, Bytes.lineFeed ∉ line := by
  intro line hline
  rcases List.mem_append.1 hline with hline | hline
  · exact lineFeed_not_mem_gap d.opening line hline
  rcases List.mem_append.1 hline with hline | hline
  · obtain ⟨r, -, hline⟩ := List.mem_flatMap.1 hline
    rcases List.mem_append.1 hline with hline | hline
    · obtain ⟨l, -, hline⟩ := List.mem_flatMap.1 hline
      exact lineFeed_not_mem_logical l line hline
    · exact lineFeed_not_mem_gap r.gap line hline
  · exact lineFeed_not_mem_commentLines d.closing line hline

end DirectoryExchange.Ldif

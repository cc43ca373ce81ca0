import DirectoryExchange.Ldif.Folding
import DirectoryExchange.Ldif.Line
import DirectoryExchange.Proofs.Text.Utf8

/-!
# Physical lines and back

What is written is a list of physical lines, each with its line feed (`unlines`), and reading cuts
the octets into lines again.  A line is written as the lines that it is folded into, and nothing of
it is lost (`flatten_foldPieces`); blocks of such lines stand with blank lines between them
(`separatedBlocks`).
-/

namespace DirectoryExchange.Ldif

/-! ### Cutting into lines -/

/-- The octets of the lines, each with its line feed. -/
def unlines (lines : List Bytes) : Bytes := lines.flatMap fun line => line ++ [Bytes.lineFeed]

@[simp] lemma unlines_nil : unlines [] = [] := rfl

@[simp] lemma unlines_cons (line : Bytes) (lines : List Bytes) :
    unlines (line :: lines) = line ++ Bytes.lineFeed :: unlines lines := by
  simp [unlines]

@[simp] lemma unlines_append (lines more : List Bytes) :
    unlines (lines ++ more) = unlines lines ++ unlines more := by
  simp [unlines]

/-- A line without a line feed in it ends at the first one. -/
lemma cutLines_line {line : Bytes} (h : Bytes.lineFeed ∉ line) (rest : Bytes) :
    cutLines (line ++ Bytes.lineFeed :: rest) = (line :: (cutLines rest).1, (cutLines rest).2) := by
  induction line with
  | nil => simp [cutLines]
  | cons b line ih =>
    rw [List.mem_cons, not_or] at h
    simp [cutLines, ih h.2, Ne.symm h.1]

/-- Octets without a line feed are no whole line. -/
lemma cutLines_of_not_mem {tail : Bytes} (h : Bytes.lineFeed ∉ tail) :
    cutLines tail = ([], tail) := by
  induction tail with
  | nil => rfl
  | cons b tail ih =>
    rw [List.mem_cons, not_or] at h
    simp [cutLines, ih h.2, Ne.symm h.1]

/-- No line holds a line feed, and neither does what follows the last one. -/
lemma lineFeed_not_mem_cutLines (v : Bytes) :
    (∀ line ∈ (cutLines v).1, Bytes.lineFeed ∉ line) ∧ Bytes.lineFeed ∉ (cutLines v).2 := by
  induction v with
  | nil => simp [cutLines]
  | cons b rest ih =>
    simp only [cutLines]
    split
    · simpa using ih
    · next hb =>
      split
      · next hlines =>
        refine ⟨by simp, ?_⟩
        rw [List.mem_cons, not_or]
        exact ⟨Ne.symm hb, ih.2⟩
      · next line lines hlines =>
        rw [hlines] at ih
        obtain ⟨hline, hothers⟩ := List.forall_mem_cons.1 ih.1
        refine ⟨List.forall_mem_cons.2 ⟨?_, hothers⟩, ih.2⟩
        rw [List.mem_cons, not_or]
        exact ⟨Ne.symm hb, hline⟩

lemma dropReturn_eq_self {line : Bytes} (h : Bytes.carriageReturn ∉ line) :
    dropReturn line = line := by
  rw [dropReturn, if_neg fun k => h (List.mem_of_getLast? k)]

/-- A physical line has the text of a cut line, without its return. -/
lemma text_of_mem_countLines {number position : Nat} {lines : List Bytes} {l : PhysicalLine}
    (h : l ∈ countLines number position lines) : ∃ line ∈ lines, l.text = dropReturn line := by
  induction lines generalizing number position with
  | nil => simp [countLines] at h
  | cons line lines ih =>
    rw [countLines, List.mem_cons] at h
    rcases h with rfl | h
    · exact ⟨line, List.mem_cons_self, rfl⟩
    · obtain ⟨other, hother, htext⟩ := ih h
      exact ⟨other, List.mem_cons_of_mem _ hother, htext⟩

/-! ### Folded lines -/

/-- The physical lines of a line. -/
def foldedLines (width : Nat) (line : String) : List Bytes :=
  match foldPieces width line.toList with
  | [] => []
  | p :: ps => Utf8.encodeChars p :: ps.map fun p => Bytes.space :: Utf8.encodeChars p

/-- Continuation lines are written with a space in front of each piece. -/
lemma continuations_eq_unlines (ps : List (List Char)) :
    continuations ps = unlines (ps.map fun p => Bytes.space :: Utf8.encodeChars p) := by
  simp [continuations, unlines, List.flatMap_map]

/-- A folded line is written as its physical lines. -/
theorem fold_eq_unlines (width : Nat) (line : String) :
    fold width line = unlines (foldedLines width line) := by
  unfold fold foldedLines
  cases foldPieces width line.toList with
  | nil => rfl
  | cons p ps =>
    rw [unlines_cons, ← continuations_eq_unlines]

/-- Nothing is lost where a line is cut. -/
lemma flatten_cutPieces (width room : Nat) (piece line : List Char) :
    (cutPieces width room piece line).flatten = piece.reverse ++ line := by
  induction line generalizing room piece with
  | nil => simp [cutPieces]
  | cons c rest ih =>
    unfold cutPieces
    split
    · simp [ih]
    · simp [ih]

/-- What a piece holds already stays in it. -/
lemma cutPieces_eq_cons (width room : Nat) (c : Char) (piece line : List Char) :
    ∃ p ps, cutPieces width room (piece ++ [c]) line = (c :: p) :: ps := by
  induction line generalizing room piece with
  | nil => exact ⟨piece.reverse, [], by simp [cutPieces]⟩
  | cons x rest ih =>
    unfold cutPieces
    split
    · exact ih (room - Utf8.width x) (x :: piece)
    · exact ⟨piece.reverse, cutPieces width (width - Utf8.width x) [x] rest, by simp⟩

/-- The first piece of a line begins as the line does. -/
lemma foldPieces_cons (width : Nat) (c : Char) (line : List Char) :
    ∃ p ps, foldPieces width (c :: line) = (c :: p) :: ps := by
  rw [foldPieces, cutPieces, if_pos (.inl rfl)]
  exact cutPieces_eq_cons _ _ c [] line

/-- Nothing of a line is lost when it is folded. -/
lemma flatten_foldPieces (width : Nat) (line : List Char) :
    (foldPieces width line).flatten = line := by
  rw [foldPieces, flatten_cutPieces, List.reverse_nil, List.nil_append]

/-! ### Gathering lines -/

/-- Takes up a physical line; a blank one changes nothing. -/
def Gathering.takeLine (g : Gathering) (line : PhysicalLine) : Gathering :=
  match line.text with
  | [] => g
  | first :: rest => g.take line.number first rest

/-- A line that is not blank is taken by its first octet. -/
lemma Gathering.takeLine_of_text {line : PhysicalLine} {first : UInt8} {rest : Bytes}
    (h : line.text = first :: rest) (g : Gathering) :
    g.takeLine line = g.take line.number first rest := by
  rw [takeLine, h]

/-- A line that is not blank is taken up. -/
lemma gather_line {line : PhysicalLine} {first : UInt8} {rest : Bytes}
    (h : line.text = first :: rest) (final : Option Nat) (g : Gathering)
    (lines : List PhysicalLine) :
    gather final g (line :: lines) = gather final (g.takeLine line) lines := by
  rw [gather, Gathering.takeLine, h]

/-- A blank line ends the record, if there is one. -/
lemma gather_blank {line : PhysicalLine} (h : line.text = []) (final : Option Nat) (g : Gathering)
    (lines : List PhysicalLine) :
    gather final g (line :: lines) =
      if g.isEmpty then gather final { g with inComment := false } lines
      else g.record line.position :: gather final {} lines := by
  rw [gather, h]

/-! ### Blocks of lines -/

/-- Whether the line can be told from a comment and from a line that goes on another. -/
def Begins (line : String) : Prop :=
  ∃ c rest, line.toList = c :: rest ∧ c ≠ ' ' ∧ c ≠ '#'

/-- The physical lines of a block of logical lines. -/
def foldedBlock (width : Nat) (block : List String) : List Bytes :=
  block.flatMap (foldedLines width)

@[simp] lemma foldedBlock_nil (width : Nat) : foldedBlock width [] = [] := rfl

@[simp] lemma foldedBlock_cons (width : Nat) (line : String) (block : List String) :
    foldedBlock width (line :: block) = foldedLines width line ++ foldedBlock width block := rfl

/-- A block is written as its folded lines. -/
theorem unlines_foldedBlock (width : Nat) (block : List String) :
    unlines (foldedBlock width block) = block.flatMap (fold width) := by
  induction block with
  | nil => rfl
  | cons line block ih => simp [fold_eq_unlines, ih]

/-- A line that can be read back: it begins a line, and no line ends within it. -/
structure Readable (line : String) : Prop where
  /-- It is neither a comment nor the continuation of another line. -/
  begins : Begins line
  /-- There is no line feed in it. -/
  lineFeed : '\n' ∉ line.toList
  /-- There is no carriage return in it. -/
  carriageReturn : '\r' ∉ line.toList

/-- The physical lines of blocks with a blank line between any two. -/
def separatedBlocks (width : Nat) : List (List String) → List Bytes
  | [] => []
  | block :: rest =>
    foldedBlock width block ++ rest.flatMap fun block => [] :: foldedBlock width block

/-- What a record says: its lines without their numbers, and whether a line in it continues
nothing. -/
def RawRecord.content (r : RawRecord) : List Bytes × Bool :=
  (r.lines.map (·.text), r.orphan.isSome)

end DirectoryExchange.Ldif

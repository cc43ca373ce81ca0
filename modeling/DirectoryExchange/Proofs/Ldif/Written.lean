import DirectoryExchange.Proofs.Ldif.Reading

/-!
# Blocks that have been written

Blocks of readable lines are written as a document without comments, in which every line is folded
and one blank line stands between any two records (`exists_document`).  So they are read as one
record each (`content_rawRecords`).
-/

namespace DirectoryExchange.Ldif

/-- A readable line is cut where it is folded. -/
lemma exists_cutLine {line : String} (hline : Readable line) (width : Nat) :
    ∃ cut : CutLine, cut.lines = foldedLines width line ∧ cut.text = Utf8.encode line := by
  obtain ⟨c, rest, hchars, hspace, hcomment⟩ := hline.begins
  obtain ⟨p, ps, hpieces⟩ := foldPieces_cons width c rest
  have hflatten : ((c :: p) :: ps).flatten = line.toList := by
    rw [hchars, ← hpieces, flatten_foldPieces]
  obtain ⟨first, more, hfirst⟩ : ∃ first more, Utf8.encodeChar c = first :: more :=
    List.exists_cons_of_ne_nil (Utf8.encodeChar_ne_nil c)
  have hmem : first ∈ Utf8.encodeChar c := by
    rw [hfirst]
    exact List.mem_cons_self
  have hnotSpace : first ≠ Bytes.space := by
    rintro rfl
    exact hspace ((Utf8.mem_encodeChar_iff (by decide) c).1 hmem)
  have hnotComment : first ≠ 0x23 := by
    rintro rfl
    exact hcomment ((Utf8.mem_encodeChar_iff (by decide) c).1 hmem)
  have hencode : first :: (more ++ Utf8.encodeChars p) = Utf8.encodeChars (c :: p) := by
    rw [Utf8.encodeChars_cons, hfirst, List.cons_append]
  -- an ASCII octet is in a piece only if its character is in the line
  have hend : ∀ b : UInt8, b.toNat < 0x80 → Char.ofNat b.toNat ∉ line.toList →
      ∀ q ∈ (c :: p) :: ps, b ∉ Utf8.encodeChars q := by
    intro b hb hnot q hq h
    refine hnot ?_
    rw [← hflatten]
    exact List.mem_flatten.2 ⟨q, hq, (Utf8.mem_encodeChars_iff hb q).1 h⟩
  have hunbroken : ∀ piece ∈ (first :: (more ++ Utf8.encodeChars p)) :: ps.map Utf8.encodeChars,
      Bytes.lineFeed ∉ piece ∧ Bytes.carriageReturn ∉ piece := by
    rw [hencode, ← List.map_cons, List.forall_mem_map]
    exact fun q hq => ⟨hend Bytes.lineFeed (by decide) hline.lineFeed q hq,
      hend Bytes.carriageReturn (by decide) hline.carriageReturn q hq⟩
  refine ⟨⟨first, more ++ Utf8.encodeChars p, ps.map Utf8.encodeChars, hnotSpace, hnotComment,
    hunbroken⟩, ?_, ?_⟩
  · rw [CutLine.lines, hencode, continuing, List.map_map, foldedLines, hchars, hpieces]
    rfl
  · rw [CutLine.text, hencode, ← List.flatten_cons, ← List.map_cons, ← Utf8.encodeChars_flatten,
      hflatten]
    rfl

/-- Numbered lines have the texts they had. -/
lemma texts_numberLines (number : Nat) (logical : List CommentedLine) :
    (numberLines number logical).map (·.text) = logical.map (·.line.text) := by
  induction logical generalizing number with
  | nil => rfl
  | cons l logical ih => rw [numberLines, List.map_cons, List.map_cons, ih]

/-- A block is laid out line by line. -/
lemma exists_logical {block : List String} (h : ∀ line ∈ block, Readable line) (width : Nat) :
    ∃ logical : List CommentedLine,
      logical.flatMap CommentedLine.lines = foldedBlock width block ∧
        logical.map (·.line.text) = block.map Utf8.encode := by
  induction block with
  | nil => exact ⟨[], rfl, rfl⟩
  | cons line block ih =>
    obtain ⟨hline, hblock⟩ := List.forall_mem_cons.1 h
    obtain ⟨cut, hlines, htext⟩ := exists_cutLine hline width
    obtain ⟨logical, hlogical, htexts⟩ := ih hblock
    refine ⟨⟨[], cut⟩ :: logical, ?_, ?_⟩
    · rw [List.flatMap_cons, hlogical, foldedBlock_cons, ← hlines]
      rfl
    · rw [List.map_cons, htexts, htext, List.map_cons]

/-- Blocks are laid out one after the other, with a blank line behind each but the last. -/
lemma exists_records {blocks : List (List String)}
    (h : ∀ block ∈ blocks, block ≠ [] ∧ ∀ line ∈ block, Readable line) (width : Nat) :
    ∃ records : List LaidRecord, (∀ r ∈ records.dropLast, r.gap ≠ []) ∧
      records.flatMap LaidRecord.lines = separatedBlocks width blocks ∧
        ∀ number, (numberRecords number records).map (·.map (·.text)) =
          blocks.map (·.map Utf8.encode) := by
  induction blocks with
  | nil => exact ⟨[], by simp, rfl, fun _ => rfl⟩
  | cons block blocks ih =>
    obtain ⟨⟨hne, hblock⟩, hblocks⟩ := List.forall_mem_cons.1 h
    obtain ⟨logical, hlogical, htexts⟩ := exists_logical hblock width
    have hlogicalNe : logical ≠ [] := by
      rintro rfl
      exact hne (List.map_eq_nil_iff.1 htexts.symm)
    obtain ⟨records, hseparated, hlines, hrecords⟩ := ih hblocks
    have hnumbered : ∀ number gap, (numberRecords number
        (⟨logical, hlogicalNe, gap⟩ :: records)).map (·.map (·.text)) =
          (block :: blocks).map (·.map Utf8.encode) := by
      intro number gap
      rw [numberRecords, List.map_cons, hrecords, texts_numberLines, htexts, List.map_cons]
    -- only the last record is without a blank line behind it
    cases blocks with
    | nil =>
      obtain rfl : records = [] := by
        have hnone := hrecords 0
        cases records with
        | nil => rfl
        | cons r records => simp [numberRecords] at hnone
      refine ⟨[⟨logical, hlogicalNe, []⟩], by simp, ?_, fun number => hnumbered number []⟩
      simp [LaidRecord.lines, hlogical, Gap.lines, separatedBlocks]
    | cons next blocks =>
      refine ⟨⟨logical, hlogicalNe, [[]]⟩ :: records, ?_, ?_, fun number => hnumbered number _⟩
      · intro r hr
        cases records with
        | nil => cases hr
        | cons other records =>
          rcases List.mem_cons.1 hr with rfl | hr
          · exact List.cons_ne_nil _ _
          · exact hseparated r hr
      · rw [List.flatMap_cons, hlines, LaidRecord.lines, hlogical]
        simp [Gap.lines, commentLines, separatedBlocks]

/-- Lines that all end in a line feed are written as such. -/
lemma endLines_lineFeed (number : Nat) (lines : List Bytes) :
    endLines (fun _ => .lineFeed) number lines = unlines lines := by
  induction lines generalizing number with
  | nil => rfl
  | cons line lines ih => rw [endLines, ih, LineEnd.mark, List.append_nil, unlines_cons]

/-- What is written as blocks is a document. -/
lemma exists_document {blocks : List (List String)}
    (h : ∀ block ∈ blocks, block ≠ [] ∧ ∀ line ∈ block, Readable line) (width : Nat) :
    ∃ d : Document,
      d.bytes (fun _ => .lineFeed) true = unlines (separatedBlocks width blocks) ∧
        d.logical.map (·.map (·.text)) = blocks.map (·.map Utf8.encode) := by
  obtain ⟨records, hseparated, hlines, hrecords⟩ := exists_records h width
  refine ⟨⟨[], records, hseparated, []⟩, ?_, hrecords _⟩
  rw [Document.bytes, if_pos rfl, endLines_lineFeed, Document.lines, hlines]
  simp [Gap.lines, commentLines]

/-- What is written as blocks is read as one record for each. -/
theorem content_rawRecords {blocks : List (List String)}
    (h : ∀ block ∈ blocks, block ≠ [] ∧ ∀ line ∈ block, Readable line) (width : Nat)
    (portion : Option Nat) :
    (rawRecords { bytes := unlines (separatedBlocks width blocks), portion }).map
        RawRecord.content =
      blocks.map fun block => (block.map Utf8.encode, false) := by
  obtain ⟨d, hbytes, htexts⟩ := exists_document h width
  have hcontent : RawRecord.content =
      (fun held => (held.1.map (·.text), held.2.isSome)) ∘ RawRecord.held := rfl
  rw [← hbytes, hcontent, ← List.map_map, held_rawRecords, List.map_map]
  have hmap : blocks.map (fun block => (block.map Utf8.encode, false)) =
      (blocks.map (·.map Utf8.encode)).map (·, false) := by
    rw [List.map_map]
    rfl
  rw [hmap, ← htexts, List.map_map]
  rfl

end DirectoryExchange.Ldif

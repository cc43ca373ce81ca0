import DirectoryExchange.Ldif.Reader
import DirectoryExchange.Proofs.Ldif.Document

/-!
# Reading a document in any layout

The lines of a document are gathered into its records (`held_rawRecords`), where each logical line
has the number of the physical line on which it begins.  What is read of the document is made of
these records alone, one after the other (`outcomes_feed_document`).
-/

namespace DirectoryExchange.Ldif

/-! ### Gathering -/

/-- What a record holds, wherever it ends. -/
def RawRecord.held (r : RawRecord) : List LogicalLine × Option Nat := (r.lines, r.orphan)

/-- A blank line behind the last line changes nothing. -/
lemma held_gather_blank (g : Gathering) (lines : List PhysicalLine) (final number position : Nat) :
    (gather (some final) g (lines ++ [⟨number, [], position⟩])).map RawRecord.held =
      (gather (some final) g lines).map RawRecord.held := by
  induction lines generalizing g with
  | nil =>
    by_cases hempty : g.newestFirst = [] ∧ g.orphan = none
    · simp [gather, Gathering.isEmpty, hempty]
    · simp [gather, Gathering.isEmpty, hempty, RawRecord.held, Gathering.record]
  | cons line lines ih =>
    rw [List.cons_append, gather, gather]
    split
    · split
      · exact ih _
      · rw [List.map_cons, List.map_cons, ih]
    · exact ih _

section Gather

variable {number : Nat} {final : Option Nat} {older : List LogicalLine} {shown : List PhysicalLine}

/-- The octets that tell what a line is are not lost with a carriage return. -/
lemma exists_text_eq_cons {first : UInt8} (hfirst : first ≠ Bytes.carriageReturn)
    {text rest : Bytes} (h : text = first :: rest ∨ text = dropReturn (first :: rest)) :
    ∃ more, text = first :: more := by
  rcases h with rfl | rfl
  · exact ⟨rest, rfl⟩
  · unfold dropReturn
    split
    · next hlast =>
      cases rest with
      | nil => exact absurd (Option.some.inj hlast) hfirst
      | cons b rest => exact ⟨(b :: rest).dropLast, rfl⟩
    · exact ⟨rest, rfl⟩

/-- The continuation lines of a comment are passed over. -/
lemma gather_continuing_comment {pieces : List Bytes} (h : Shows number (continuing pieces) shown)
    (rest : List PhysicalLine) :
    gather final ⟨older, none, true⟩ (shown ++ rest) = gather final ⟨older, none, true⟩ rest := by
  induction pieces generalizing number shown with
  | nil =>
    cases h
    rfl
  | cons piece pieces ih =>
    obtain ⟨l, shown, rfl, -, htext, hshown⟩ := h.exists_of_cons
    obtain ⟨more, hmore⟩ := exists_text_eq_cons (by decide) htext
    rw [List.cons_append, gather_line hmore, Gathering.takeLine_of_text hmore]
    exact ih hshown

/-- Comments are passed over, with the lines that go on with them. -/
lemma exists_gather_comments {comments : List Comment}
    (h : Shows number (commentLines comments) shown) (flag : Bool) :
    ∃ flag', ∀ final older rest, gather final ⟨older, none, flag⟩ (shown ++ rest) =
      gather final ⟨older, none, flag'⟩ rest := by
  induction comments generalizing number shown flag with
  | nil =>
    cases h
    exact ⟨flag, fun _ _ _ => rfl⟩
  | cons comment comments ih =>
    obtain ⟨front, back, rfl, hfront, hback⟩ := h.exists_of_append
    obtain ⟨l, front, rfl, -, htext, hfront⟩ := hfront.exists_of_cons
    obtain ⟨more, hmore⟩ := exists_text_eq_cons (by decide) htext
    obtain ⟨flag', hflag'⟩ := ih hback true
    refine ⟨flag', fun final older rest => ?_⟩
    rw [List.append_assoc, List.cons_append, gather_line hmore, Gathering.takeLine_of_text hmore,
      ← hflag', ← gather_continuing_comment hfront]
    rfl

/-- Continuation lines are put behind the line that they continue. -/
lemma gather_continuing {pieces : List Bytes} (hcr : ∀ piece ∈ pieces, Bytes.carriageReturn ∉ piece)
    (h : Shows number (continuing pieces) shown) (line : LogicalLine) (rest : List PhysicalLine) :
    gather final ⟨line :: older, none, false⟩ (shown ++ rest) =
      gather final ⟨{ line with text := line.text ++ pieces.flatten } :: older, none, false⟩
        rest := by
  induction pieces generalizing number shown line with
  | nil =>
    cases h
    simp
  | cons piece pieces ih =>
    obtain ⟨hpiece, hpieces⟩ := List.forall_mem_cons.1 hcr
    obtain ⟨l, shown, rfl, -, htext, hshown⟩ := h.exists_of_cons
    have hreturn : Bytes.carriageReturn ∉ Bytes.space :: piece := by
      rw [List.mem_cons, not_or]
      exact ⟨by decide, hpiece⟩
    rw [dropReturn_eq_self hreturn, or_self] at htext
    rw [List.cons_append, gather_line htext, Gathering.takeLine_of_text htext, List.flatten_cons,
      ← List.append_assoc]
    exact ih hpieces hshown { line with text := line.text ++ piece }

/-- A cut line is put together. -/
lemma gather_cutLine {line : CutLine} (h : Shows number line.lines shown) (flag : Bool)
    (rest : List PhysicalLine) :
    gather final ⟨older, none, flag⟩ (shown ++ rest) =
      gather final ⟨⟨number + 1, line.text⟩ :: older, none, false⟩ rest := by
  obtain ⟨hfirst, hcontinued⟩ := List.forall_mem_cons.1 line.unbroken
  obtain ⟨l, shown, rfl, hnumber, htext, hshown⟩ := h.exists_of_cons
  rw [dropReturn_eq_self hfirst.2, or_self] at htext
  rw [List.cons_append, gather_line htext, Gathering.takeLine_of_text htext, Gathering.take,
    if_neg line.not_comment, if_neg line.not_continuing, hnumber]
  exact gather_continuing (fun piece hpiece => (hcontinued piece hpiece).2) hshown _ rest

/-- The logical lines of a record are gathered one after the other. -/
lemma exists_gather_logical {logical : List CommentedLine}
    (h : Shows number (logical.flatMap CommentedLine.lines) shown) (flag : Bool) :
    ∃ flag', ∀ final older rest, gather final ⟨older, none, flag⟩ (shown ++ rest) =
      gather final ⟨(numberLines number logical).reverse ++ older, none, flag'⟩ rest := by
  induction logical generalizing number shown flag with
  | nil =>
    cases h
    exact ⟨flag, fun _ _ _ => rfl⟩
  | cons l logical ih =>
    obtain ⟨front, back, rfl, hfront, hback⟩ := h.exists_of_append
    obtain ⟨before, line, rfl, hbefore, hline⟩ := hfront.exists_of_append
    obtain ⟨inComment, hcomments⟩ := exists_gather_comments hbefore flag
    obtain ⟨flag', hlogical⟩ := ih hback false
    refine ⟨flag', fun final older rest => ?_⟩
    rw [List.append_assoc, List.append_assoc, hcomments, gather_cutLine hline, hlogical,
      numberLines]
    simp

/-- In front of a blank line comments are passed over. -/
lemma exists_gather_blank {comments : List Comment} {gap : Gap}
    (h : Shows number (Gap.lines (comments :: gap)) shown) (flag : Bool) :
    ∃ blank back flag', blank.text = [] ∧
      Shows (number + (commentLines comments ++ [[]]).length) gap.lines back ∧
      ∀ final older rest, gather final ⟨older, none, flag⟩ (shown ++ rest) =
        gather final ⟨older, none, flag'⟩ (blank :: (back ++ rest)) := by
  obtain ⟨front, back, rfl, hfront, hback⟩ := Shows.exists_of_append h
  obtain ⟨before, behind, rfl, hbefore, hbehind⟩ := hfront.exists_of_append
  obtain ⟨blank, behind, rfl, -, htext, hbehind⟩ := hbehind.exists_of_cons
  cases hbehind
  obtain ⟨flag', hcomments⟩ := exists_gather_comments hbefore flag
  refine ⟨blank, back, flag', or_self_iff.1 htext, hback, fun final older rest => ?_⟩
  rw [List.append_assoc, List.append_assoc, hcomments]
  rfl

/-- Before a record begins, blank lines and comments are passed over. -/
lemma exists_gather_gap {gap : Gap} (h : Shows number gap.lines shown) (flag : Bool) :
    ∃ flag', ∀ final rest, gather final ⟨[], none, flag⟩ (shown ++ rest) =
      gather final ⟨[], none, flag'⟩ rest := by
  induction gap generalizing number shown flag with
  | nil =>
    cases h
    exact ⟨flag, fun _ _ => rfl⟩
  | cons comments gap ih =>
    obtain ⟨blank, back, inComment, htext, hback, hblank⟩ := exists_gather_blank h flag
    obtain ⟨flag', hgap⟩ := ih hback false
    refine ⟨flag', fun final rest => ?_⟩
    rw [hblank, gather_blank htext, ← hgap]
    rfl

/-- Behind the lines of a record, the first blank line ends it. -/
lemma exists_held_gather_gap {gap : Gap} (hgap : gap ≠ []) (h : Shows number gap.lines shown)
    (holder : older ≠ []) (flag : Bool) :
    ∃ flag', ∀ final rest,
      (gather final ⟨older, none, flag⟩ (shown ++ rest)).map RawRecord.held =
        (older.reverse, none) :: (gather final ⟨[], none, flag'⟩ rest).map RawRecord.held := by
  obtain ⟨comments, gap, rfl⟩ := List.exists_cons_of_ne_nil hgap
  obtain ⟨blank, back, inComment, htext, hback, hblank⟩ := exists_gather_blank h flag
  obtain ⟨flag', hrest⟩ := exists_gather_gap hback false
  have hnotEmpty : Gathering.isEmpty ⟨older, none, inComment⟩ = false := by
    simpa [Gathering.isEmpty] using holder
  refine ⟨flag', fun final rest => ?_⟩
  rw [hblank, gather_blank htext, hnotEmpty, if_neg Bool.false_ne_true, List.map_cons, hrest]
  rfl

/-- Lines that are numbered are as many as before. -/
lemma numberLines_ne_nil {logical : List CommentedLine} (h : logical ≠ []) (number : Nat) :
    numberLines number logical ≠ [] := by
  cases logical with
  | nil => exact absurd rfl h
  | cons l logical => exact List.cons_ne_nil _ _

/-- Records and the comments behind them are gathered record by record. -/
lemma held_gather_records {records : List LaidRecord} {closing : List Comment}
    (hseparated : ∀ r ∈ records.dropLast, r.gap ≠ [])
    (h : Shows number (records.flatMap LaidRecord.lines ++ commentLines closing) shown)
    (final : Nat) (flag : Bool) :
    (gather (some final) ⟨[], none, flag⟩ shown).map RawRecord.held =
      (numberRecords number records).map fun lines => (lines, none) := by
  induction records generalizing number shown flag with
  | nil =>
    obtain ⟨flag', hclosing⟩ := exists_gather_comments h flag
    rw [← List.append_nil shown, hclosing]
    rfl
  | cons r records ih =>
    rw [List.flatMap_cons, List.append_assoc] at h
    obtain ⟨front, back, rfl, hfront, hback⟩ := h.exists_of_append
    obtain ⟨logical, gap, rfl, hlogical, hgap⟩ := hfront.exists_of_append
    obtain ⟨inComment, hgather⟩ := exists_gather_logical hlogical flag
    have hne : (numberLines number r.logical).reverse ++ [] ≠ [] := by
      simpa using numberLines_ne_nil r.logical_ne_nil number
    rw [List.append_assoc, hgather, numberRecords, List.map_cons]
    by_cases hlast : r.gap = []
    · -- without a blank line behind it, the record is the last one
      obtain rfl : records = [] := by
        cases records with
        | nil => rfl
        | cons next records => exact absurd hlast (hseparated r List.mem_cons_self)
      rw [hlast] at hgap
      cases hgap
      obtain ⟨flag', hclosing⟩ := exists_gather_comments hback inComment
      rw [List.nil_append, ← List.append_nil back, hclosing]
      simp [gather, Gathering.isEmpty, numberLines_ne_nil r.logical_ne_nil number, RawRecord.held,
        Gathering.record, numberRecords]
    · obtain ⟨flag', hrest⟩ := exists_held_gather_gap hlast hgap hne inComment
      have hmore : ∀ other ∈ records.dropLast, other.gap ≠ [] := by
        intro other hother
        cases records with
        | nil => cases hother
        | cons next records => exact hseparated other (List.mem_cons_of_mem _ hother)
      rw [hrest, ih hmore hback flag']
      simp

end Gather

/-! ### The records of a document -/

/-- The lines of a document are found again, but for a last line without octets and end. -/
lemma Document.exists_shows (d : Document) (ends : Nat → LineEnd) (ended : Bool)
    (portion : Option Nat) :
    ∃ shown, Shows 0 d.lines shown ∧ ∀ final,
      (gather (some final) {} shown).map RawRecord.held =
        (gather (some final) {} (physicalLines { bytes := d.bytes ends ended, portion })).map
          RawRecord.held := by
  -- the last line may be without a line end, and then it is what is left behind the cut
  have hbytes : ∃ front tail, d.bytes ends ended = endLines ends 0 front ++ tail ∧
      (d.lines = front ∧ tail = [] ∨ d.lines = front ++ [tail]) := by
    cases ended with
    | true => exact ⟨d.lines, [], by simp [bytes], .inl ⟨rfl, rfl⟩⟩
    | false =>
      rcases List.eq_nil_or_concat d.lines with hlines | ⟨front, tail, hlines⟩
      · exact ⟨[], [], by simp [bytes, hlines, endLines], .inl ⟨hlines, rfl⟩⟩
      · rw [List.concat_eq_append] at hlines
        exact ⟨front, tail, by simp [bytes, hlines], .inr hlines⟩
  obtain ⟨front, tail, hbytes, hlines⟩ := hbytes
  have hfeed := d.lineFeed_not_mem
  have hfront : ∀ line ∈ front, Bytes.lineFeed ∉ line := by
    rcases hlines with ⟨hlines, -⟩ | hlines <;> simp_all
  have htail : Bytes.lineFeed ∉ tail := by
    rcases hlines with ⟨-, rfl⟩ | hlines
    · exact List.not_mem_nil
    · exact hfeed tail (by simp [hlines])
  obtain ⟨cut, hcut, hlength, hshows⟩ := exists_cutLines_endLines hfront htail ends 0
  have hphysical : physicalLines { bytes := d.bytes ends ended, portion } =
      if tail = [] then countLines 0 0 cut
      else countLines 0 0 cut ++
        [⟨cut.length + 1, dropReturn tail, (d.bytes ends ended).length⟩] := by
    simp [physicalLines, hbytes, hcut]
  rw [hphysical]
  rcases hlines with ⟨hlines, rfl⟩ | hlines
  · exact ⟨countLines 0 0 cut, hlines ▸ hshows 0 0, by simp⟩
  · have hlast : ∀ position, Shows 0 d.lines
        (countLines 0 0 cut ++ [⟨cut.length + 1, dropReturn tail, position⟩]) := by
      intro position
      rw [hlines]
      refine (hshows 0 0).append (.cons ?_ (.inr rfl) .nil)
      rw [hlength, Nat.zero_add]
    refine ⟨_, hlast (d.bytes ends ended).length, fun final => ?_⟩
    split
    · next htail =>
      rw [htail]
      exact held_gather_blank {} _ final _ _
    · rfl

/-- The records of a document are found again in any layout. -/
theorem held_rawRecords (d : Document) (ends : Nat → LineEnd) (ended : Bool)
    (portion : Option Nat) :
    (rawRecords { bytes := d.bytes ends ended, portion }).map RawRecord.held =
      d.logical.map fun lines => (lines, none) := by
  obtain ⟨shown, hshows, hgather⟩ := d.exists_shows ends ended portion
  have hraw : rawRecords { bytes := d.bytes ends ended, portion } =
      gather (some (d.bytes ends ended).length) {}
        (physicalLines { bytes := d.bytes ends ended, portion }) := rfl
  obtain ⟨front, back, rfl, hfront, hback⟩ := hshows.exists_of_append
  obtain ⟨flag, hopening⟩ := exists_gather_gap hfront false
  rw [hraw, ← hgather, hopening, held_gather_records d.separated hback, Document.logical,
    Nat.zero_add]

/-! ### What is read of a document -/

/-- What each record is read as.  The first one may begin with a version line if
`versionAllowed`. -/
def results (versionAllowed : Bool) :
    List (List LogicalLine) → List (Except ParseError (Option ChangeRecord))
  | [] => []
  | lines :: rest => (readRecord versionAllowed ⟨lines, none, 0⟩).1 :: results false rest

/-- What is given of the results: the changes and errors in order, up to and including the first
error behind which nothing is read. -/
def given : List (Except ParseError (Option ChangeRecord)) → List (Except ReadError ChangeRecord)
  | [] => []
  | .ok none :: rest => given rest
  | .ok (some record) :: rest => .ok record :: given rest
  | .error e :: rest => .error (.parse e) :: if e.mayContinue then given rest else []

/-- Records are given by what they hold. -/
lemma outcomes_feedRecords_held {source : Source} (hfailure : source.failure = none)
    {records : List (List LogicalLine)} {raws : List RawRecord}
    (hraws : raws.map RawRecord.held = records.map fun lines => (lines, none))
    (versionAllowed : Bool) (events : List LogEvent) :
    (feedRecords source versionAllowed events raws).items.map (·.outcome) =
      given (results versionAllowed records) := by
  induction records generalizing raws versionAllowed events with
  | nil =>
    obtain rfl := List.map_eq_nil_iff.1 hraws
    simp [feedRecords, hfailure, results, given]
  | cons lines records ih =>
    obtain ⟨raw, rest, rfl, hraw, hrest⟩ := List.map_eq_cons_iff.1 hraws
    obtain ⟨rfl, horphan⟩ := Prod.mk.inj hraw
    have hread : readRecord versionAllowed raw =
        readRecord versionAllowed ⟨raw.lines, none, 0⟩ := by
      rw [← horphan]
      rfl
    rw [feedRecords, hread, results]
    rcases readRecord versionAllowed ⟨raw.lines, none, 0⟩ with ⟨e | change, told⟩
    · cases hmay : e.mayContinue with
      | true => simp [hmay, given, ih hrest]
      | false => simp [hmay, given]
    · cases change with
      | none => exact ih hrest false _
      | some record => simp [given, ih hrest]

/-- What a record is read as has nothing to do with the others, but that a version line may stand
at the beginning of the first one only. -/
lemma exists_results_append (versionAllowed : Bool) (before : List (List LogicalLine))
    (record : List LogicalLine) (after : List (List LogicalLine)) :
    ∃ allowed, results versionAllowed (before ++ record :: after) =
      results versionAllowed before ++
        (readRecord allowed ⟨record, none, 0⟩).1 :: results false after := by
  induction before generalizing versionAllowed with
  | nil => exact ⟨versionAllowed, rfl⟩
  | cons lines before ih =>
    obtain ⟨allowed, hallowed⟩ := ih false
    exact ⟨allowed, by rw [List.cons_append, results, hallowed, results, List.cons_append]⟩

/-- What a result gives has nothing to do with the results before it, as long as none of them ends
the reading. -/
lemma given_append {before : List (Except ParseError (Option ChangeRecord))}
    (h : ∀ e, .error e ∈ before → e.mayContinue = true)
    (after : List (Except ParseError (Option ChangeRecord))) :
    given (before ++ after) = given before ++ given after := by
  induction before with
  | nil => rfl
  | cons result before ih =>
    have ih := ih fun e he => h e (List.mem_cons_of_mem _ he)
    rcases result with e | _ | record
    · simp [given, h e List.mem_cons_self, ih]
    · exact ih
    · simp [given, ih]

/-- Of a document in any layout exactly what its records are read as is given, in order and up to
the first error behind which nothing is read.  So an error confined to its record is given in its
place, and what is given of the records before and behind it is what they give by themselves. -/
theorem outcomes_feed_document (d : Document) (ends : Nat → LineEnd) (ended : Bool)
    (portion : Option Nat) :
    let outcomes :=
      (feed { bytes := d.bytes ends ended, portion }).items.map (·.outcome)
    outcomes = given (results true d.logical) ∧
      ∀ before e after, results true d.logical = before ++ .error e :: after →
        (∀ e', .error e' ∈ before → e'.mayContinue = true) → e.mayContinue = true →
        outcomes = given before ++ .error (.parse e) :: given after := by
  intro outcomes
  have houtcomes : outcomes = given (results true d.logical) :=
    outcomes_feedRecords_held rfl (held_rawRecords d ends ended portion) true []
  refine ⟨houtcomes, fun before e after hresults hbefore he => ?_⟩
  rw [houtcomes, hresults, given_append hbefore, given, if_pos he]

/-- A document with comments and mixed line ends gives a fault in base64 and then a record. -/
theorem outcomes_feed_document_badBase64 :
    let note : Comment := ⟨[0x61], [[], [0x23]], by decide⟩
    let named : CommentedLine :=
      ⟨[note], 0x64, [0x6E, 0x3A, 0x62], [[], [0x3D, 0x63]], by decide, by decide, by decide⟩
    let faulty : CommentedLine :=
      ⟨[], 0x61, [0x3A, 0x3A], [[0x21]], by decide, by decide, by decide⟩
    let valued : CommentedLine :=
      ⟨[note], 0x61, [0x3A], [[0x78]], by decide, by decide, by decide⟩
    let d : Document :=
      ⟨[[], [note]], [⟨[named, faulty], by decide, [[]]⟩, ⟨[named, valued], by decide, []⟩],
        by decide, []⟩
    let e : Entry := ⟨"b=c", [⟨"a", [[0x78]], by decide, by decide⟩], by decide, by decide⟩
    let ends (n : Nat) : LineEnd := if n % 2 = 0 then .lineFeed else .returnLineFeed
    (feed { bytes := d.bytes ends false }).items.map (·.outcome) =
      [.error (.parse (.recoverable .invalidBase64 (.line 12))), .ok (.add e)] := by
  intro note named faulty valued d e ends
  have hlogical : d.logical =
      [[⟨9, [0x64, 0x6E, 0x3A, 0x62, 0x3D, 0x63]⟩, ⟨12, [0x61, 0x3A, 0x3A, 0x21]⟩],
        [⟨18, [0x64, 0x6E, 0x3A, 0x62, 0x3D, 0x63]⟩, ⟨24, [0x61, 0x3A, 0x78]⟩]] := by
    rfl
  have hresults : results true d.logical =
      [] ++ .error (.recoverable .invalidBase64 (.line 12)) :: [.ok (some (.add e))] := by
    rw [hlogical]
    rfl
  exact (outcomes_feed_document d ends false none).2 [] _ _ hresults
    (fun _ h => absurd h List.not_mem_nil) rfl

end DirectoryExchange.Ldif

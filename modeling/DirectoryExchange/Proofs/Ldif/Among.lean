import DirectoryExchange.Proofs.Ldif.ChangeLines
import DirectoryExchange.Proofs.Ldif.ReadAhead

/-!
# A change among others

However a record is said and laid out, exactly that record is read of its lines, whatever stands
before them down to a blank line and behind them from a blank line on (`feed_of_said`).
-/

namespace DirectoryExchange.Ldif

/-- Octets behind which a record can begin. -/
inductive BeforeRecord : Bytes → Prop
  /-- There are none. -/
  | nothing : BeforeRecord []
  /-- There is only a blank line. -/
  | blank (e : LineEnd) : BeforeRecord (e.mark ++ [Bytes.lineFeed])
  /-- There are other lines, and then a blank one. -/
  | behind {v : Bytes} (h : EndsInBlankLine v) : BeforeRecord v

/-- The octets of lines that are ended as `ends` says, the last one only if `ended`. -/
def joinLines (ends : Nat → LineEnd) (ended : Bool) (lines : List Bytes) : Bytes :=
  if ended then endLines ends 0 lines
  else endLines ends 0 lines.dropLast ++ lines.getLast?.getD []

/-! ### The lines -/

/-- What stands before a record is whole lines, behind which nothing has been gathered. -/
lemma BeforeRecord.cutLines {front : Bytes} (h : BeforeRecord front) :
    ∃ lines, Ldif.cutLines front = (lines, []) ∧ gathered {} (countLines 0 0 lines) = {} := by
  cases h with
  | nothing => exact ⟨[], rfl, rfl⟩
  | blank e =>
    have hmark : Bytes.lineFeed ∉ e.mark := by cases e <;> decide
    refine ⟨[e.mark], ?_, gathered_countLines_mark [] e⟩
    rw [cutLines_line hmark]
    rfl
  | behind h =>
    obtain ⟨lines, e, hcut⟩ := exists_cutLines_of_endsInBlankLine h
    exact ⟨_, hcut, gathered_countLines_mark lines e⟩

/-- No line of a record is blank. -/
lemma ne_nil_of_mem_lines {l : CommentedLine} : ∀ line ∈ l.lines, line ≠ [] := by
  intro line hline
  rcases List.mem_append.1 hline with hline | hline
  · obtain ⟨comment, -, hline⟩ := List.mem_flatMap.1 hline
    rcases List.mem_cons.1 hline with rfl | hline
    · exact List.cons_ne_nil _ _
    · obtain ⟨piece, -, rfl⟩ := List.mem_map.1 hline
      exact List.cons_ne_nil _ _
  · rcases List.mem_cons.1 hline with rfl | hline
    · exact List.cons_ne_nil _ _
    · obtain ⟨piece, -, rfl⟩ := List.mem_map.1 hline
      exact List.cons_ne_nil _ _

section Lines

variable {front : Bytes} {opening lines : List Bytes}

/-- Behind lines that have ended, lines are read as they are. -/
lemma exists_cutLines_append (hfront : cutLines front = (opening, []))
    (hlines : ∀ line ∈ lines, Bytes.lineFeed ∉ line) {tail : Bytes} (htail : Bytes.lineFeed ∉ tail)
    (ends : Nat → LineEnd) :
    ∃ cut, cutLines (front ++ (endLines ends 0 lines ++ tail)) = (opening ++ cut, tail) ∧
      cut.length = lines.length ∧
      ∀ start position, Shows start lines (countLines start position cut) := by
  obtain ⟨cut, hcut, hlength, hshows⟩ := exists_cutLines_endLines hlines htail ends 0
  refine ⟨cut, ?_, hlength, hshows⟩
  rw [cutLines_append, hfront, List.nil_append, hcut]

/-- The last line needs no end to be read. -/
lemma exists_physicalLines (hfront : cutLines front = (opening, []))
    (hlines : ∀ line ∈ lines, Bytes.lineFeed ∉ line ∧ line ≠ []) (ends : Nat → LineEnd)
    (ended : Bool) (portion : Option Nat) :
    ∃ shown, physicalLines { bytes := front ++ joinLines ends ended lines, portion } =
        countLines 0 0 opening ++ shown ∧ Shows opening.length lines shown := by
  cases ended with
  | true =>
    have hnone : Bytes.lineFeed ∉ ([] : Bytes) := List.not_mem_nil
    obtain ⟨cut, hcut, -, hshows⟩ :=
      exists_cutLines_append hfront (fun line h => (hlines line h).1) hnone ends
    rw [List.append_nil] at hcut
    refine ⟨_, ?_, hshows opening.length (0 + (unlines opening).length)⟩
    simp [physicalLines, joinLines, hcut, countLines_append]
  | false =>
    rcases List.eq_nil_or_concat lines with rfl | ⟨before, tail, rfl⟩
    · refine ⟨[], ?_, .nil⟩
      simp [physicalLines, joinLines, endLines, hfront]
    · rw [List.concat_eq_append] at hlines ⊢
      obtain ⟨hbefore, htail⟩ := List.forall_mem_append.1 hlines
      obtain ⟨hlf, hne⟩ := htail tail List.mem_cons_self
      obtain ⟨cut, hcut, hlength, hshows⟩ :=
        exists_cutLines_append hfront (fun line h => (hbefore line h).1) hlf ends
      refine ⟨countLines opening.length (0 + (unlines opening).length) cut ++
        [⟨(opening ++ cut).length + 1, dropReturn tail,
          (front ++ joinLines ends false (before ++ [tail])).length⟩], ?_, ?_⟩
      · simp [physicalLines, joinLines, hcut, countLines_append, hne]
      · refine (hshows _ _).append (.cons ?_ (.inr rfl) .nil)
        rw [List.length_append, hlength]

end Lines

/-! ### The record -/

/-- The lines of a record, and a blank line or the end behind them, are gathered as the record. -/
lemma exists_gather_record {number : Nat} {logical : List CommentedLine} (hne : logical ≠ [])
    {shown : List PhysicalLine} (h : Shows number (logical.flatMap CommentedLine.lines) shown) :
    (∀ final, ∃ raw : RawRecord, gather (some final) {} shown = [raw] ∧ raw.orphan = none ∧
        raw.lines.map (·.text) = logical.map (·.line.text)) ∧
      ∀ blank : PhysicalLine, blank.text = [] → ∃ raw : RawRecord,
        gather none {} (shown ++ [blank]) = [raw] ∧ raw.orphan = none ∧
          raw.lines.map (·.text) = logical.map (·.line.text) := by
  obtain ⟨flag, hgather⟩ := exists_gather_logical h false
  have hopen :
      Gathering.isEmpty ⟨(numberLines number logical).reverse ++ [], none, flag⟩ = false := by
    simpa [Gathering.isEmpty] using numberLines_ne_nil hne number
  have htexts : ∀ position, ((Gathering.record
      ⟨(numberLines number logical).reverse ++ [], none, flag⟩ position).lines.map (·.text)) =
        logical.map (·.line.text) := by
    intro position
    rw [Gathering.record, List.append_nil, List.reverse_reverse, texts_numberLines]
  refine ⟨fun final => ⟨_, ?_, rfl, htexts final⟩, fun blank hblank =>
    ⟨_, ?_, rfl, htexts blank.position⟩⟩
  · rw [← List.append_nil shown, hgather (some final) [] [], gather, hopen,
      if_neg Bool.false_ne_true]
  · rw [hgather none [] [blank], gather_blank hblank, hopen, if_neg Bool.false_ne_true]
    rfl

section Records

variable {front : Bytes} (hfront : BeforeRecord front) {logical : List CommentedLine}
  (hne : logical ≠ []) (ends : Nat → LineEnd) (portion : Option Nat)
include hfront

/-- What stands before a record is over when the record begins. -/
lemma rawRecords_front : rawRecords { bytes := front, portion } = closedRecords front := by
  obtain ⟨opening, hcut, hgathered⟩ := hfront.cutLines
  have hlines : physicalLines { bytes := front, portion } = countLines 0 0 opening ++ [] := by
    simp [physicalLines, hcut]
  rw [rawRecords, hlines, gather_append, hgathered, closedRecords, hcut]
  exact List.append_nil _

include hne

/-- The lines of a record at the end are one record, with or without the end of the last line. -/
lemma exists_rawRecords_last (ended : Bool) :
    ∃ raw : RawRecord,
      rawRecords
        { bytes := front ++ joinLines ends ended (logical.flatMap CommentedLine.lines), portion } =
          closedRecords front ++ [raw] ∧
      raw.orphan = none ∧ raw.lines.map (·.text) = logical.map (·.line.text) := by
  obtain ⟨opening, hcut, hgathered⟩ := hfront.cutLines
  have hlines : ∀ line ∈ logical.flatMap CommentedLine.lines,
      Bytes.lineFeed ∉ line ∧ line ≠ [] := by
    intro line hline
    obtain ⟨l, -, hline⟩ := List.mem_flatMap.1 hline
    exact ⟨lineFeed_not_mem_logical l line hline, ne_nil_of_mem_lines line hline⟩
  obtain ⟨shown, hphysical, hshows⟩ := exists_physicalLines hcut hlines ends ended portion
  obtain ⟨raw, hraw, hrecord⟩ := (exists_gather_record hne hshows).1
    (front ++ joinLines ends ended (logical.flatMap CommentedLine.lines)).length
  refine ⟨raw, ?_, hrecord⟩
  rw [rawRecords, hphysical, gather_append, hgathered, closedRecords, hcut]
  exact congrArg _ hraw

/-- The lines of a record with a blank line behind them are one record that has ended. -/
lemma exists_closedRecords_append :
    ∃ raw : RawRecord,
      closedRecords (front ++
        joinLines ends true (logical.flatMap CommentedLine.lines ++ [[]])) =
          closedRecords front ++ [raw] ∧
      raw.orphan = none ∧ raw.lines.map (·.text) = logical.map (·.line.text) := by
  obtain ⟨opening, hcut, hgathered⟩ := hfront.cutLines
  have hlines : ∀ line ∈ logical.flatMap CommentedLine.lines ++ [[]], Bytes.lineFeed ∉ line := by
    intro line hline
    rcases List.mem_append.1 hline with hline | hline
    · obtain ⟨l, -, hline⟩ := List.mem_flatMap.1 hline
      exact lineFeed_not_mem_logical l line hline
    · rw [List.mem_singleton.1 hline]
      exact List.not_mem_nil
  have hnone : Bytes.lineFeed ∉ ([] : Bytes) := List.not_mem_nil
  obtain ⟨cut, hall, -, hshows⟩ := exists_cutLines_append hcut hlines hnone ends
  obtain ⟨shown, back, hcounted, hshown, hback⟩ :=
    (hshows (0 + opening.length) (0 + (unlines opening).length)).exists_of_append
  obtain ⟨blank, rest, rfl, -, htext, hrest⟩ := hback.exists_of_cons
  cases hrest
  obtain ⟨raw, hraw, hrecord⟩ :=
    (exists_gather_record hne hshown).2 blank (or_self_iff.1 htext)
  refine ⟨raw, ?_, hrecord⟩
  rw [List.append_nil] at hall
  rw [closedRecords, closedRecords, joinLines, if_pos rfl, hall, hcut, countLines_append,
    gather_append, hgathered, hcounted, hraw]

end Records

/-! ### What is read -/

/-- All that is read of it is given before the record. -/
lemma items_feed_front {front : Bytes} (hfront : BeforeRecord front) (portion : Option Nat) :
    (feed { bytes := front, portion }).items = closedItems front := by
  have hraws : rawRecords { bytes := front, portion } = closedRecords front ++ [] := by
    rw [rawRecords_front hfront, List.append_nil]
  cases continues true [] (closedRecords front) with
  | ended _ hitems => rw [feed, hraws, hitems, closedItems]
  | goesOn versionAllowed events _ hitems =>
    rw [feed, hraws, hitems, closedItems]
    exact List.append_nil _

/-- Behind records that do not end the reading, a record that can be read is read. -/
lemma exists_items_append {raws : List RawRecord}
    (hgoesOn : endReading (itemsOf true [] raws) = false) {raw : RawRecord} {record : ChangeRecord}
    (hread : ∀ versionAllowed, readRecord versionAllowed raw = (.ok (some record), [])) :
    ∃ item : Item, item.outcome = .ok record ∧ ∀ source more,
      (feedRecords source true [] (raws ++ raw :: more)).items =
        itemsOf true [] raws ++ item :: (feedRecords source false [] more).items := by
  cases continues true [] raws with
  | ended hend _ =>
    rw [hgoesOn] at hend
    cases hend
  | goesOn versionAllowed events _ hitems =>
    refine ⟨⟨.ok record, raw.position, events ++ []⟩, rfl, fun source more => ?_⟩
    rw [hitems, feedRecords, hread]
    rfl

/-- Every record that deletes, modifies or renames can be said, if the names of its modifications
can be given, and whatever says it can be laid out.  However it is said and laid out, behind
whatever octets that end in a blank line and are read to their end, exactly that record is read of
its lines: alone if nothing follows, and else in front of what is read of the octets behind the
blank line that ends it. -/
theorem feed_of_said {record : ChangeRecord} (hadd : ∀ e, record ≠ .add e)
    (hnames : ∀ m ∈ steps record, Sayable m.name) :
    (∃ lines, Says record lines) ∧
    ∀ lines, Says record lines →
      (∃ logical : List CommentedLine, logical.map (·.line.text) = lines) ∧
      ∀ logical : List CommentedLine, logical.map (·.line.text) = lines →
        ∀ front portion, BeforeRecord front →
          endReading (feed { bytes := front, portion }).items = false →
          ∀ ends : Nat → LineEnd,
            let before := (feed { bytes := front, portion }).items
            let physical := logical.flatMap CommentedLine.lines
            (∀ ended, ∃ item : Item, item.outcome = .ok record ∧
              (feed { bytes := front ++ joinLines ends ended physical, portion }).items =
                before ++ [item]) ∧
            ∀ behind,
              let whole := front ++ joinLines ends true (physical ++ [[]])
              ∃ (item : Item) (more : List Item), item.outcome = .ok record ∧
                (feed { bytes := whole ++ behind, portion }).items = before ++ item :: more ∧
                ∀ later ∈ more, ¬ ClosedWithin (whole ++ behind) whole.length later.position := by
  refine ⟨exists_said hadd, fun lines hsaid => ⟨hsaid.exists_logical hnames, ?_⟩⟩
  rintro logical rfl front portion hfront hgoesOn ends
  have hne : logical ≠ [] := by
    rintro rfl
    cases hsaid
  have hread : ∀ {raw : RawRecord}, raw.orphan = none →
      raw.lines.map (·.text) = logical.map (·.line.text) →
      ∀ versionAllowed, readRecord versionAllowed raw = (.ok (some record), []) := by
    intro raw horphan htexts
    rw [← htexts] at hsaid
    exact readRecord_of_said hnames hsaid horphan
  rw [items_feed_front hfront] at hgoesOn
  intro before physical
  have hbefore : before = closedItems front := items_feed_front hfront portion
  refine ⟨fun ended => ?_, fun behind => ?_⟩
  · obtain ⟨raw, hraws, horphan, htexts⟩ := exists_rawRecords_last hfront hne ends portion ended
    obtain ⟨item, hitem, hitems⟩ := exists_items_append hgoesOn (hread horphan htexts)
    refine ⟨item, hitem, ?_⟩
    rw [feed, hraws, hitems, hbefore]
    rfl
  -- behind the blank line it does not matter what follows: the record is closed before it
  · intro whole
    obtain ⟨raw, hraws, horphan, htexts⟩ := exists_closedRecords_append hfront hne ends
    obtain ⟨item, hitem, hitems⟩ := exists_items_append hgoesOn (hread horphan htexts)
    obtain ⟨more, hmore, hopen⟩ :=
      exists_items_feed_eq { bytes := whole ++ behind, portion } whole.length
    have hclosed : closedItems whole = closedItems front ++ [item] := by
      rw [closedItems, hraws, itemsOf, hitems, closedItems]
      rfl
    refine ⟨item, more, hitem, ?_, hopen rfl⟩
    rw [hmore, List.take_left, hclosed, hbefore, List.append_assoc, List.singleton_append]

/-- A modify record is read whose words are spelled freely, and whose value is folded base64. -/
theorem feed_of_said_folded :
    let record : ChangeRecord :=
      .modify "b" [⟨.add, "a", [[0x63]], by decide, by decide⟩] (by decide) (by decide)
    ∃ item : Item, item.outcome = .ok record ∧
      (feed { bytes := Utf8.encode "dn: b\nChangeType: MOD\n IFY\nadd: a\nA:: Y\n w==" }).items =
        [item] := by
  intro record
  have hnames : ∀ m ∈ steps record, Sayable m.name := by
    intro m hm
    rw [List.mem_singleton.1 hm]
    constructor <;> decide
  have hA : Spells "a" "A" := spells_of_map_toLower (by decide)
  have hhead : SaysValue "add" (Utf8.encode "a") "add: a" := .asWritten (.refl "add")
  have hsteps : SaysModifications [⟨.add, "a", [[0x63]], by decide, by decide⟩]
      ["add: a", "A:: Yw=="] :=
    .last (.intro hhead (.cons (.encoded hA) .nil))
  have hdn : SaysValue "dn" (Utf8.encode "b") "dn: b" := .asWritten (.refl "dn")
  have htype : Spells "changetype" "ChangeType" := spells_of_map_toLower (by decide)
  have hword : Spells "modify" "MODIFY" := spells_of_map_toLower (by decide)
  have hchange : SaysValue "changetype" (Utf8.encode "MODIFY") "ChangeType: MODIFY" :=
    .asWritten htype
  have hsaid : Says record
      (["dn: b", "ChangeType: MODIFY", "add: a", "A:: Yw=="].map Utf8.encode) :=
    @Says.intro record "dn: b" "ChangeType: MODIFY" "modify" "MODIFY" [] ["add: a", "A:: Yw=="]
      hdn (fun _ h => nomatch h) hword hchange (.modify hsteps)
  let logical : List CommentedLine :=
    [⟨[], 0x64, [0x6E, 0x3A, 0x20, 0x62], [], by decide, by decide, by decide⟩,
      ⟨[], 0x43, Utf8.encode "hangeType: MOD", [Utf8.encode "IFY"], by decide, by decide,
        by decide⟩,
      ⟨[], 0x61, Utf8.encode "dd: a", [], by decide, by decide, by decide⟩,
      ⟨[], 0x41, Utf8.encode ":: Y", [Utf8.encode "w=="], by decide, by decide, by decide⟩]
  have hadd : ∀ e, record ≠ .add e := fun _ => ChangeRecord.noConfusion
  obtain ⟨-, hread⟩ := feed_of_said hadd hnames
  have hlast := (hread _ hsaid).2 logical (by decide +kernel) [] none .nothing rfl
    fun _ => .lineFeed
  obtain ⟨item, hitem, hitems⟩ := hlast.1 false
  have hbytes : [] ++ joinLines (fun _ => .lineFeed) false (logical.flatMap CommentedLine.lines) =
      Utf8.encode "dn: b\nChangeType: MOD\n IFY\nadd: a\nA:: Y\n w==" := by
    decide +kernel
  refine ⟨item, hitem, ?_⟩
  rw [← hbytes, hitems]
  rfl

end DirectoryExchange.Ldif

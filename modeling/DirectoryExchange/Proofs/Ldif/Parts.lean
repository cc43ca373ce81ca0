import DirectoryExchange.Ldif.Reader
import DirectoryExchange.Proofs.Ldif.Document

/-!
# Reading in parts

Octets that are cut in two are cut into the lines of the first part and those of the rest
(`cutLines_append`).  What the lines of the first part are gathered into depends on nothing behind
them (`gather_append`), and neither does what is read of the records gathered there
(`continues`).
-/

namespace DirectoryExchange.Ldif

/-! ### Lines -/

/-- Nothing is lost where octets are cut into lines. -/
lemma unlines_cutLines (v : Bytes) : unlines (cutLines v).1 ++ (cutLines v).2 = v := by
  induction v with
  | nil => rfl
  | cons b rest ih =>
    simp only [cutLines]
    split
    · next hb =>
      rw [unlines_cons, List.nil_append, List.cons_append, ih, hb]
    · split
      · next hlines =>
        rw [hlines, unlines_nil, List.nil_append] at ih
        rw [unlines_nil, List.nil_append, ih]
      · next line lines hlines =>
        rw [hlines, unlines_cons] at ih
        rw [unlines_cons, List.cons_append, List.cons_append, ih]

/-- Lines are cut off from what follows them. -/
lemma cutLines_unlines {lines : List Bytes} (h : ∀ line ∈ lines, Bytes.lineFeed ∉ line)
    (rest : Bytes) :
    cutLines (unlines lines ++ rest) = (lines ++ (cutLines rest).1, (cutLines rest).2) := by
  induction lines with
  | nil => rfl
  | cons line lines ih =>
    obtain ⟨hline, hlines⟩ := List.forall_mem_cons.1 h
    rw [unlines_cons, List.append_assoc, List.cons_append, cutLines_line hline, ih hlines,
      List.cons_append]

/-- The lines of the first part come first, and what it has behind its last line goes on with the
second. -/
theorem cutLines_append (v w : Bytes) :
    cutLines (v ++ w) = ((cutLines v).1 ++ (cutLines ((cutLines v).2 ++ w)).1,
      (cutLines ((cutLines v).2 ++ w)).2) := by
  obtain ⟨hlines, -⟩ := lineFeed_not_mem_cutLines v
  have hv : v ++ w = unlines (cutLines v).1 ++ ((cutLines v).2 ++ w) := by
    rw [← List.append_assoc, unlines_cutLines]
  rw [hv, cutLines_unlines hlines]

/-- The lines of the second part are counted on from those of the first. -/
lemma countLines_append (number position : Nat) (lines more : List Bytes) :
    countLines number position (lines ++ more) =
      countLines number position lines ++
        countLines (number + lines.length) (position + (unlines lines).length) more := by
  induction lines generalizing number position with
  | nil => rfl
  | cons line lines ih =>
    have hnumber : number + 1 + lines.length = number + (line :: lines).length := by
      rw [List.length_cons]
      omega
    have hposition : position + line.length + 1 + (unlines lines).length =
        position + (unlines (line :: lines)).length := by
      rw [unlines_cons, List.length_append, List.length_cons]
      omega
    rw [List.cons_append, countLines, countLines, ih, hnumber, hposition, List.cons_append]

/-! ### Gathering -/

/-- What has been gathered of the lines and belongs to no record yet. -/
def gathered (g : Gathering) : List PhysicalLine → Gathering
  | [] => g
  | line :: rest =>
    match line.text with
    | [] => gathered (if g.isEmpty then { g with inComment := false } else {}) rest
    | first :: more => gathered (g.take line.number first more) rest

/-- The records of the first lines depend on nothing behind them. -/
theorem gather_append (final : Option Nat) (g : Gathering) (lines more : List PhysicalLine) :
    gather final g (lines ++ more) =
      gather none g lines ++ gather final (gathered g lines) more := by
  induction lines generalizing g with
  | nil => rfl
  | cons line lines ih =>
    cases htext : line.text with
    | nil =>
      simp only [List.cons_append, gather, gathered, htext]
      split
      · exact ih _
      · rw [ih, List.cons_append]
    | cons first rest =>
      simp only [List.cons_append, gather, gathered, htext]
      exact ih _

/-- What is gathered of two parts is gathered of the second behind the first. -/
lemma gathered_append (g : Gathering) (lines more : List PhysicalLine) :
    gathered g (lines ++ more) = gathered (gathered g lines) more := by
  induction lines generalizing g with
  | nil => rfl
  | cons line lines ih =>
    rw [List.cons_append, gathered, gathered]
    split <;> exact ih _

/-- Behind a blank line nothing has been gathered. -/
lemma gathered_blank {g : Gathering} {line : PhysicalLine} (h : line.text = []) :
    gathered g [line] = {} := by
  rw [gathered, h]
  simp only [gathered]
  split
  · next hempty =>
    obtain ⟨newestFirst, orphan, inComment⟩ := g
    rw [Gathering.isEmpty, Bool.and_eq_true, List.isEmpty_iff, Option.isNone_iff_eq_none] at hempty
    obtain ⟨rfl, rfl⟩ : newestFirst = [] ∧ orphan = none := hempty
    rfl
  · rfl

/-- A record ends with one of the lines, or with the source. -/
lemma position_of_mem_gather {final : Option Nat} {g : Gathering} {lines : List PhysicalLine}
    {raw : RawRecord} (h : raw ∈ gather final g lines) :
    (∃ line ∈ lines, raw.position = line.position) ∨
      (final = some raw.position ∧ (gathered g lines).isEmpty = false) := by
  -- a record ends at a blank line, or at the end of the source if something was gathered
  induction lines generalizing g with
  | nil =>
    cases final with
    | none => exact absurd h List.not_mem_nil
    | some position =>
      rw [gather] at h
      split at h
      · exact absurd h List.not_mem_nil
      · next hg =>
        obtain rfl := List.mem_singleton.1 h
        exact .inr ⟨rfl, Bool.eq_false_iff.2 hg⟩
  | cons line lines ih =>
    have hlater : ∀ {g'}, gathered g (line :: lines) = gathered g' lines →
        raw ∈ gather final g' lines → (∃ l ∈ line :: lines, raw.position = l.position) ∨
          (final = some raw.position ∧ (gathered g (line :: lines)).isEmpty = false) := by
      intro g' hg' hmem
      rcases ih hmem with ⟨l, hl, hposition⟩ | hend
      · exact .inl ⟨l, List.mem_cons_of_mem _ hl, hposition⟩
      · rw [hg']
        exact .inr hend
    rw [gather] at h
    split at h
    · next hblank =>
      split at h
      · next hempty => exact hlater (by rw [gathered, hblank, if_pos hempty]) h
      · next hempty =>
        rcases List.mem_cons.1 h with rfl | h
        · exact .inl ⟨line, List.mem_cons_self, rfl⟩
        · exact hlater (by rw [gathered, hblank, if_neg hempty]) h
    · next hblank => exact hlater (by rw [gathered, hblank]) h

/-! ### Reading records -/

/-- Whether nothing is read behind the item. -/
def isFinal (item : Item) : Bool :=
  match item.outcome with
  | .ok _ => false
  | .error e => !e.mayContinue

/-- Whether nothing is read behind the items. -/
def endReading (items : List Item) : Bool := items.getLast?.any isFinal

/-- Reading ends as it ends behind an item that is not final. -/
lemma endReading_cons {item : Item} (h : isFinal item = false) (items : List Item) :
    endReading (item :: items) = endReading items := by
  cases items with
  | nil => exact h
  | cons next items => simp [endReading, List.getLast?_cons]

/-- What is read of records before the end of the source. -/
def itemsOf (versionAllowed : Bool) (events : List LogEvent) (raws : List RawRecord) : List Item :=
  (feedRecords { bytes := [] } versionAllowed events raws).items

/-- How reading goes on behind records. -/
inductive Continues (versionAllowed : Bool) (events : List LogEvent) (raws : List RawRecord) :
    Prop where
  /-- Nothing is read behind them. -/
  | ended (hend : endReading (itemsOf versionAllowed events raws) = true)
      (hitems : ∀ source more, (feedRecords source versionAllowed events (raws ++ more)).items =
        itemsOf versionAllowed events raws)
  /-- Of what stands behind them the same is read, whatever source it comes from. -/
  | goesOn (versionAllowed' : Bool) (events' : List LogEvent)
      (hend : endReading (itemsOf versionAllowed events raws) = false)
      (hitems : ∀ source more, (feedRecords source versionAllowed events (raws ++ more)).items =
        itemsOf versionAllowed events raws ++
          (feedRecords source versionAllowed' events' more).items)

/-- Behind an item that is not the last one reading goes on as it does behind none. -/
lemma Continues.cons {versionAllowed : Bool} {events : List LogEvent} {raw : RawRecord}
    {raws : List RawRecord} (item : Item) (hitem : isFinal item = false)
    (hfeed : ∀ source more, (feedRecords source versionAllowed events (raw :: more)).items =
      item :: (feedRecords source false [] more).items)
    (h : Continues false [] raws) : Continues versionAllowed events (raw :: raws) := by
  have hitems : itemsOf versionAllowed events (raw :: raws) = item :: itemsOf false [] raws :=
    hfeed _ _
  have hends := endReading_cons hitem (itemsOf false [] raws)
  cases h with
  | ended hend hmore =>
    refine .ended (by rw [hitems, hends, hend]) fun source more => ?_
    rw [List.cons_append, hfeed, hmore, hitems]
  | goesOn versionAllowed' events' hend hmore =>
    refine .goesOn versionAllowed' events' (by rw [hitems, hends, hend]) fun source more => ?_
    rw [List.cons_append, hfeed, hmore, hitems, List.cons_append]

/-- What is read of the first records depends on nothing behind them. -/
theorem continues (versionAllowed : Bool) (events : List LogEvent) (raws : List RawRecord) :
    Continues versionAllowed events raws := by
  -- what stands behind a record is read as it would be without it, unless the reading has ended
  induction raws generalizing versionAllowed events with
  | nil => exact .goesOn versionAllowed events rfl fun _ _ => rfl
  | cons raw raws ih =>
    rcases hread : readRecord versionAllowed raw with ⟨e | _ | record, told⟩
    · cases hmay : e.mayContinue with
      | true =>
        refine .cons ⟨.error (.parse e), raw.position, events ++ told⟩ ?_ ?_
          (ih false [])
        · simp [isFinal, ReadError.mayContinue, hmay]
        · simp [feedRecords, hread, hmay]
      | false =>
        refine .ended ?_ ?_
        · simp [itemsOf, feedRecords, hread, hmay, endReading, isFinal, ReadError.mayContinue]
        · simp [itemsOf, feedRecords, hread, hmay]
    · -- a version line gives no item, only events
      have hskip : ∀ source more, (feedRecords source versionAllowed events (raw :: more)).items =
          (feedRecords source false (events ++ told) more).items := by
        intro source more
        rw [feedRecords, hread]
      have hitems : itemsOf versionAllowed events (raw :: raws) =
          itemsOf false (events ++ told) raws := hskip _ _
      cases ih false (events ++ told) with
      | ended hend hmore =>
        refine .ended (by rw [hitems, hend]) fun source more => ?_
        rw [List.cons_append, hskip, hmore, hitems]
      | goesOn versionAllowed' events' hend hmore =>
        refine .goesOn versionAllowed' events' (by rw [hitems, hend]) fun source more => ?_
        rw [List.cons_append, hskip, hmore, hitems]
    · refine .cons ⟨.ok record, raw.position, events ++ told⟩ rfl ?_ (ih false [])
      simp [feedRecords, hread]

/-- What is read of records before the end of the source was read when one of them had ended. -/
lemma position_of_mem_feedRecords {source : Source} (hfailure : source.failure = none)
    {versionAllowed : Bool} {events : List LogEvent} {raws : List RawRecord} {item : Item}
    (h : item ∈ (feedRecords source versionAllowed events raws).items) :
    ∃ raw ∈ raws, item.position = raw.position := by
  induction raws generalizing versionAllowed events with
  | nil => simp [feedRecords, hfailure] at h
  | cons raw raws ih =>
    have hlater : ∀ {va ev}, item ∈ (feedRecords source va ev raws).items →
        ∃ r ∈ raw :: raws, item.position = r.position := by
      intro va ev hmem
      obtain ⟨r, hr, hposition⟩ := ih hmem
      exact ⟨r, List.mem_cons_of_mem _ hr, hposition⟩
    rw [feedRecords] at h
    split at h
    · exact hlater h
    · rw [Feed.items_cons, List.mem_cons] at h
      rcases h with rfl | h
      · exact ⟨raw, List.mem_cons_self, rfl⟩
      · exact hlater h
    · simp only at h
      split at h
      · rw [Feed.items_cons, List.mem_cons] at h
        rcases h with rfl | h
        · exact ⟨raw, List.mem_cons_self, rfl⟩
        · exact hlater h
      · rw [Feed.items_last, List.mem_singleton] at h
        rw [h]
        exact ⟨raw, List.mem_cons_self, rfl⟩

end DirectoryExchange.Ldif

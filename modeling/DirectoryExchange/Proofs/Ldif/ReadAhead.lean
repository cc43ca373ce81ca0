import DirectoryExchange.Proofs.Ldif.Parts

/-!
# No reading ahead

A record that a blank line ends is given when that line has been taken from the stream, and not an
octet later.  So a stream that fails gives exactly the items whose blank lines came through, and
then its failure (`items_feed_failingAt`).
-/

namespace DirectoryExchange.Ldif

/-- Whether the last line of the octets is blank and has its line feed, and is not the only one. -/
def EndsInBlankLine (v : Bytes) : Prop :=
  ∃ (front : Bytes) (e : LineEnd), v = front ++ Bytes.lineFeed :: e.mark ++ [Bytes.lineFeed]

/-- Whether a blank line within the first `n` of the octets ends what is read down to the
position. -/
def ClosedWithin (bytes : Bytes) (n position : Nat) : Prop :=
  position ≤ n ∧ EndsInBlankLine (bytes.take position)

/-- The records that blank lines within the octets end. -/
def closedRecords (v : Bytes) : List RawRecord := gather none {} (countLines 0 0 (cutLines v).1)

/-- What is read of the records that blank lines within the octets end. -/
def closedItems (v : Bytes) : List Item := itemsOf true [] (closedRecords v)

/-! ### The records that have ended -/

/-- A blank line is a line end alone, of either kind. -/
lemma exists_mark_of_dropReturn {line : Bytes} (h : dropReturn line = []) :
    ∃ e : LineEnd, line = e.mark := by
  rw [dropReturn] at h
  split at h
  · next hlast =>
    obtain ⟨front, rfl⟩ := List.getLast?_eq_some_iff.1 hlast
    rw [List.dropLast_concat] at h
    exact ⟨.returnLineFeed, by rw [h]; rfl⟩
  · exact ⟨.lineFeed, h⟩

/-- A record that has ended did so with a blank line behind other lines. -/
lemma closedWithin_of_mem_gather {g : Gathering} {lines : List Bytes} {number : Nat} {v : Bytes}
    (hg : g.isEmpty = false → ∃ w, v = w ++ [Bytes.lineFeed]) {raw : RawRecord}
    (h : raw ∈ gather none g (countLines number v.length lines)) :
    ClosedWithin (v ++ unlines lines) (v ++ unlines lines).length raw.position := by
  -- `v` is what was read; if lines are gathered from it, it ends with a line feed
  induction lines generalizing g number v with
  | nil => exact absurd h List.not_mem_nil
  | cons line lines ih =>
    have hlength : v.length + line.length + 1 = (v ++ (line ++ [Bytes.lineFeed])).length := by
      simp only [List.length_append, List.length_singleton]
      omega
    have hoctets : v ++ unlines (line :: lines) =
        v ++ (line ++ [Bytes.lineFeed]) ++ unlines lines := by
      simp
    have hlater : ∀ {g'},
        raw ∈ gather none g' (countLines (number + 1) (v.length + line.length + 1) lines) →
        ClosedWithin (v ++ unlines (line :: lines)) (v ++ unlines (line :: lines)).length
          raw.position := by
      intro g' hmem
      rw [hlength] at hmem
      rw [hoctets]
      exact ih (fun _ => ⟨v ++ line, by simp⟩) hmem
    rw [countLines, gather] at h
    split at h
    · next hblank =>
      split at h
      · exact hlater h
      · next hsome =>
        rcases List.mem_cons.1 h with rfl | h
        · obtain ⟨w, hw⟩ := hg (Bool.eq_false_iff.2 hsome)
          obtain ⟨e, he⟩ := exists_mark_of_dropReturn hblank
          have hposition : (g.record (v.length + line.length + 1)).position =
              (v ++ (line ++ [Bytes.lineFeed])).length := hlength
          rw [ClosedWithin, hposition, hoctets, List.take_left']
          · refine ⟨by simp, w, e, ?_⟩
            rw [hw, he]
            simp
          · rfl
        · exact hlater h
    · exact hlater h

/-! ### The records behind them -/

/-- No line ends before the first one does. -/
lemma le_position_of_mem_countLines {number position : Nat} {lines : List Bytes}
    {l : PhysicalLine} (h : l ∈ countLines number position lines) :
    ∃ line ∈ lines.head?, position + line.length + 1 ≤ l.position := by
  induction lines generalizing number position with
  | nil => exact absurd h List.not_mem_nil
  | cons line lines ih =>
    refine ⟨line, rfl, ?_⟩
    rw [countLines, List.mem_cons] at h
    rcases h with rfl | h
    · exact Nat.le_refl _
    · obtain ⟨next, -, hposition⟩ := ih h
      omega

/-- A line that does not end within the first octets is not shorter than what they leave of it. -/
lemma length_le_of_cutLines {tail more line : Bytes} (htail : Bytes.lineFeed ∉ tail)
    (h : line ∈ (cutLines (tail ++ more)).1.head?) : tail.length ≤ line.length := by
  obtain ⟨lines, hlines⟩ : ∃ lines, (cutLines (tail ++ more)).1 = line :: lines :=
    List.head?_eq_some_iff.1 h
  have hoctets : line ++ [Bytes.lineFeed] <+: tail ++ more := by
    rw [← unlines_cutLines (tail ++ more), hlines, unlines_cons]
    exact ⟨unlines lines ++ (cutLines (tail ++ more)).2, by simp⟩
  refine Nat.le_of_not_lt fun hlt => ?_
  have hstart : line ++ [Bytes.lineFeed] <+: tail := by
    refine List.prefix_of_prefix_length_le hoctets (List.prefix_append tail more) ?_
    rw [List.length_append, List.length_singleton]
    omega
  exact htail (hstart.subset (by simp))

/-- Octets that end in a blank line end in a line of their own, which is blank. -/
lemma exists_cutLines_of_endsInBlankLine {v : Bytes} (h : EndsInBlankLine v) :
    ∃ (lines : List Bytes) (e : LineEnd), cutLines v = (lines ++ [e.mark], []) := by
  obtain ⟨front, e, rfl⟩ := h
  obtain ⟨-, htail⟩ := lineFeed_not_mem_cutLines front
  have hfront : cutLines (front ++ [Bytes.lineFeed]) =
      ((cutLines front).1 ++ [(cutLines front).2], []) := by
    rw [cutLines_append, cutLines_line htail]
    rfl
  have hmark : Bytes.lineFeed ∉ e.mark := by cases e <;> decide
  have hoctets : front ++ Bytes.lineFeed :: e.mark ++ [Bytes.lineFeed] =
      front ++ [Bytes.lineFeed] ++ (e.mark ++ [Bytes.lineFeed]) := by simp
  refine ⟨(cutLines front).1 ++ [(cutLines front).2], e, ?_⟩
  rw [hoctets, cutLines_append, hfront, List.nil_append, cutLines_line hmark]
  rfl

lemma dropReturn_of_mark (e : LineEnd) : dropReturn e.mark = [] := by cases e <;> rfl

/-- Behind a blank line nothing has been gathered. -/
lemma gathered_countLines_mark (lines : List Bytes) (e : LineEnd) :
    gathered {} (countLines 0 0 (lines ++ [e.mark])) = {} := by
  rw [countLines_append, gathered_append]
  exact gathered_blank (dropReturn_of_mark e)

/-- Lines that do not end within the first octets end behind them. -/
lemma lt_position_of_mem_countLines {bytes : Bytes} {n number : Nat} {l : PhysicalLine}
    (h : l ∈ countLines number (unlines (cutLines (bytes.take n)).1).length
      (cutLines ((cutLines (bytes.take n)).2 ++ bytes.drop n)).1) :
    n < l.position := by
  have htail := (lineFeed_not_mem_cutLines (bytes.take n)).2
  obtain ⟨line, hline, hposition⟩ := le_position_of_mem_countLines h
  have hle := length_le_of_cutLines htail hline
  have hlength : (unlines (cutLines (bytes.take n)).1).length + (cutLines (bytes.take n)).2.length =
      (bytes.take n).length := by
    rw [← List.length_append, unlines_cutLines]
  have hn : (bytes.take n).length = n := by
    refine Classical.byContradiction fun hne => ?_
    rw [List.length_take] at hne
    have hdrop : bytes.drop n = [] := List.drop_eq_nil_of_le (by omega)
    rw [hdrop, List.append_nil, cutLines_of_not_mem htail] at hline
    cases hline
  omega

/-- The lines of a source are those that end within its first octets, and others that end behind
them; at its end there may be one that no line feed ends. -/
lemma exists_physicalLines_eq (source : Source) (n : Nat) :
    ∃ behind, physicalLines source = countLines 0 0 (cutLines (source.bytes.take n)).1 ++ behind ∧
      ∀ l ∈ behind, n < l.position ∨
        ((cutLines source.bytes).2 ≠ [] ∧ l.position = source.bytes.length) := by
  have hall : cutLines source.bytes =
      ((cutLines (source.bytes.take n)).1 ++
        (cutLines ((cutLines (source.bytes.take n)).2 ++ source.bytes.drop n)).1,
      (cutLines ((cutLines (source.bytes.take n)).2 ++ source.bytes.drop n)).2) := by
    rw [← cutLines_append, List.take_append_drop]
  rw [physicalLines, hall]
  simp only [countLines_append, Nat.zero_add]
  split
  · exact ⟨_, rfl, fun l hl => .inl (lt_position_of_mem_countLines hl)⟩
  · next hopen =>
    refine ⟨_, List.append_assoc _ _ _, fun l hl => ?_⟩
    rcases List.mem_append.1 hl with hl | hl
    · exact .inl (lt_position_of_mem_countLines hl)
    · rw [List.mem_singleton.1 hl]
      exact .inr ⟨fun hnil => hopen (.inl hnil), rfl⟩

/-- The records of a source are those that end with a blank line within its first octets, and
others that do not. -/
theorem exists_rawRecords_eq (source : Source) (n : Nat) :
    ∃ more, rawRecords source = closedRecords (source.bytes.take n) ++ more ∧
      (source.failure = none → ∀ raw ∈ more, ¬ ClosedWithin source.bytes n raw.position) := by
  obtain ⟨behind, hphysical, hbehind⟩ := exists_physicalLines_eq source n
  refine ⟨_, by rw [rawRecords, hphysical, gather_append, closedRecords], ?_⟩
  rintro hfailure raw hraw ⟨hle, hblank⟩
  -- a source that ends in a blank line has no octets behind its last line feed
  have hends : raw.position = source.bytes.length →
      ∃ (blanks : List Bytes) (e : LineEnd), cutLines source.bytes = (blanks ++ [e.mark], []) := by
    intro hposition
    rw [hposition, List.take_length] at hblank
    exact exists_cutLines_of_endsInBlankLine hblank
  rcases position_of_mem_gather hraw with ⟨l, hl, hposition⟩ | ⟨hfinal, hgathered⟩
  · rcases hbehind l hl with hlt | ⟨hne, hend⟩
    · omega
    · obtain ⟨blanks, e, hcut⟩ := hends (hposition.trans hend)
      rw [hcut] at hne
      exact hne rfl
  · rw [hfailure] at hfinal
    obtain ⟨blanks, e, hcut⟩ := hends (Option.some.inj hfinal).symm
    have hlines : physicalLines source = countLines 0 0 (blanks ++ [e.mark]) := by
      simp [physicalLines, hcut]
    rw [← gathered_append, ← hphysical, hlines, gathered_countLines_mark] at hgathered
    exact absurd hgathered (by decide)

/-! ### What is read -/

/-- What is read of the records that blank lines within the first octets end comes first. -/
lemma exists_items_feed_eq (source : Source) (n : Nat) :
    ∃ rest, (feed source).items = closedItems (source.bytes.take n) ++ rest ∧
      (source.failure = none → ∀ item ∈ rest, ¬ ClosedWithin source.bytes n item.position) := by
  obtain ⟨more, hraws, hmore⟩ := exists_rawRecords_eq source n
  cases continues true [] (closedRecords (source.bytes.take n)) with
  | ended hend hitems =>
    exact ⟨[], by rw [feed, hraws, hitems, closedItems, List.append_nil], fun _ _ h => nomatch h⟩
  | goesOn versionAllowed events hend hitems =>
    refine ⟨_, by rw [feed, hraws, hitems, closedItems], fun hfailure item hitem => ?_⟩
    obtain ⟨raw, hraw, hposition⟩ := position_of_mem_feedRecords hfailure hitem
    rw [hposition]
    exact hmore hfailure raw hraw

/-- On a stream that fails, the records that have ended are read, and then the failure. -/
lemma items_feed_of_failure {source : Source} {e : StreamError} (h : source.failure = some e) :
    (endReading (closedItems source.bytes) = true →
        (feed source).items = closedItems source.bytes) ∧
      (endReading (closedItems source.bytes) = false →
        ∃ events, (feed source).items =
          closedItems source.bytes ++ [⟨.error (.stream e), source.bytes.length, events⟩]) := by
  have hraws : rawRecords source = closedRecords source.bytes ++ [] := by
    simp [rawRecords, closedRecords, physicalLines, h]
  cases continues true [] (closedRecords source.bytes) with
  | ended hend hitems =>
    have hover : endReading (closedItems source.bytes) = true := hend
    refine ⟨fun _ => by rw [feed, hraws, hitems, closedItems], fun hgoesOn => ?_⟩
    rw [hover] at hgoesOn
    cases hgoesOn
  | goesOn versionAllowed events hend hitems =>
    have hgoesOn : endReading (closedItems source.bytes) = false := hend
    refine ⟨fun hover => ?_, fun _ => ⟨events, ?_⟩⟩
    · rw [hgoesOn] at hover
      cases hover
    · have hlast : (feedRecords source versionAllowed events []).items =
          [⟨.error (.stream e), source.bytes.length, events⟩] := by
        rw [feedRecords, h]
        rfl
      rw [feed, hraws, hitems, hlast, closedItems]

/-- Items of records that have ended are given within the octets. -/
lemma closedWithin_of_mem_closedItems {bytes : Bytes} {n : Nat} {item : Item}
    (h : item ∈ closedItems (bytes.take n)) : ClosedWithin bytes n item.position := by
  obtain ⟨raw, hraw, hposition⟩ := position_of_mem_feedRecords rfl h
  obtain ⟨hle, hblank⟩ : ClosedWithin (unlines (cutLines (bytes.take n)).1)
      (unlines (cutLines (bytes.take n)).1).length raw.position :=
    closedWithin_of_mem_gather (v := []) (fun hg => absurd hg (by decide)) hraw
  have hlines : unlines (cutLines (bytes.take n)).1 <+: bytes :=
    .trans ⟨_, unlines_cutLines (bytes.take n)⟩ (List.take_prefix n bytes)
  have hlength : (unlines (cutLines (bytes.take n)).1).length ≤ n := by
    have := congrArg List.length (unlines_cutLines (bytes.take n))
    rw [List.length_append, List.length_take] at this
    omega
  have htake : (unlines (cutLines (bytes.take n)).1).take raw.position =
      bytes.take raw.position := by
    obtain ⟨behind, hbehind⟩ := hlines
    have := congrArg (List.take raw.position) hbehind
    rwa [List.take_append_of_le_length hle] at this
  rw [hposition]
  refine ⟨Nat.le_trans hle hlength, ?_⟩
  rwa [← htake]

/-- An item whose record a blank line ends, and all before it, depend on nothing behind that
line. -/
lemma take_items_feed {source other : Source} (hfailure : source.failure = none) {k : Nat}
    {item : Item} (hitem : (feed source).items[k]? = some item)
    (hblank : EndsInBlankLine (source.bytes.take item.position))
    (hsame : other.bytes.take item.position = source.bytes.take item.position) :
    (feed other).items.take (k + 1) = (feed source).items.take (k + 1) := by
  obtain ⟨rest, hitems, hrest⟩ := exists_items_feed_eq source item.position
  obtain ⟨rest', hitems', -⟩ := exists_items_feed_eq other item.position
  have hk : k < (closedItems (source.bytes.take item.position)).length := by
    refine Nat.lt_of_not_le fun hle => ?_
    rw [hitems, List.getElem?_append_right hle] at hitem
    exact hrest hfailure item (List.mem_of_getElem? hitem) ⟨Nat.le_refl _, hblank⟩
  rw [hitems, hitems', hsame, List.take_append_of_le_length hk, List.take_append_of_le_length hk]

/-- A stream that fails behind its first `n` octets gives the items whose records blank lines within
them end, as the stream that does not fail gives them, and then its failure unless reading has ended
with them.  And what is given up to a record that a blank line ends is the same whatever stands
behind that line, on whatever stream. -/
theorem items_feed_failingAt (bytes : Bytes) (portion : Option Nat) (n : Nat)
    (hn : n ≤ bytes.length) (e : StreamError) :
    (∃ kept rest, (feed { bytes, portion }).items = kept ++ rest ∧
      (∀ item ∈ kept, ClosedWithin bytes n item.position) ∧
      (∀ item ∈ rest, ¬ ClosedWithin bytes n item.position) ∧
      (endReading kept = true →
        (feed { Source.failingAt n e bytes with portion }).items = kept) ∧
      (endReading kept = false → ∃ events,
        (feed { Source.failingAt n e bytes with portion }).items =
          kept ++ [⟨.error (.stream e), n, events⟩])) ∧
    ∀ k item, (feed { bytes, portion }).items[k]? = some item →
      EndsInBlankLine (bytes.take item.position) →
      ∀ other : Source, other.bytes.take item.position = bytes.take item.position →
        (feed other).items.take (k + 1) = (feed { bytes, portion }).items.take (k + 1) := by
  refine ⟨?_, fun k item hitem hblank other hsame => take_items_feed rfl hitem hblank hsame⟩
  obtain ⟨rest, hitems, hrest⟩ := exists_items_feed_eq { bytes, portion } n
  have hbytes : ({ Source.failingAt n e bytes with portion } : Source).bytes = bytes.take n := by
    rw [Source.failingAt, if_pos hn]
  have hfailure : ({ Source.failingAt n e bytes with portion } : Source).failure = some e := by
    rw [Source.failingAt, if_pos hn]
  obtain ⟨hover, hgoesOn⟩ := items_feed_of_failure hfailure
  rw [hbytes, List.length_take, Nat.min_eq_left hn] at hgoesOn
  rw [hbytes] at hover
  exact ⟨_, rest, hitems, fun _ => closedWithin_of_mem_closedItems, hrest rfl, hover, hgoesOn⟩

/-- Of two records the second is cut off by a failure, and the first is given. -/
theorem items_feed_failingAt_secondRecord :
    let first : Bytes := [0x64, 0x6E, 0x3A, 0x62, 0x0A, 0x61, 0x3A, 0x63, 0x0A, 0x0A]
    let second : Bytes := [0x64, 0x6E, 0x3A, 0x62, 0x0A, 0x61, 0x3A, 0x64, 0x0A, 0x0A]
    let e : Entry := ⟨"b", [⟨"a", [[0x63]], by decide, by decide⟩], by decide, by decide⟩
    let failure : StreamError := ⟨"broken"⟩
    15 ≤ (first ++ second).length ∧
      (feed (.failingAt 15 failure (first ++ second))).items.map
          (fun i => (i.outcome, i.position)) =
        [(.ok (.add e), 10), (.error (.stream failure), 15)] := by
  intro first second e failure
  have hn : 15 ≤ (first ++ second).length := by decide
  obtain ⟨⟨kept, rest, hitems, hkept, hrest, -, hgoesOn⟩, -⟩ :=
    items_feed_failingAt (first ++ second) none 15 hn failure
  obtain ⟨i, j, hwhole, hi, hj⟩ : ∃ i j : Item,
      (feed { bytes := first ++ second }).items = [i, j] ∧
      (i.outcome = .ok (.add e) ∧ i.position = 10) ∧ j.position = 20 :=
    ⟨_, _, rfl, ⟨rfl, rfl⟩, rfl⟩
  have hclosed : ClosedWithin (first ++ second) 15 i.position := by
    rw [hi.2]
    exact ⟨by decide, [0x64, 0x6E, 0x3A, 0x62, 0x0A, 0x61, 0x3A, 0x63], .lineFeed, rfl⟩
  obtain rfl : kept = [i] := by
    rw [hwhole] at hitems
    match kept, hitems with
    | [], hitems =>
      subst hitems
      exact absurd hclosed (hrest i List.mem_cons_self)
    | [_], hitems => rw [(List.cons.inj hitems).1]
    | _ :: k :: _, hitems =>
      have hk : k = j := by
        simpa using ((List.cons.inj (List.cons.inj hitems).2).1).symm
      have hle := (hkept k (by simp)).1
      rw [hk, hj] at hle
      exact absurd hle (by decide)
  obtain ⟨events, hcut⟩ := hgoesOn (by simp [endReading, isFinal, hi.1])
  refine ⟨hn, ?_⟩
  change (feed { Source.failingAt 15 failure (first ++ second) with
    portion := none }).items.map _ = _
  rw [hcut]
  simp [hi]

end DirectoryExchange.Ldif

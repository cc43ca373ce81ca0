import DirectoryExchange.Proofs.Ldif.Pace

/-!
# The numbers of lines

The lines of octets are counted by their line feeds (`textLines`).  The number of a physical line is
how many lines there are in what has been taken with it (`StandsBehind`).  The numbers of the
logical lines of a record are those of the physical lines on which they begin, and the first
continuation line with nothing to continue stands directly behind a blank line or where the source
begins (`Gathers`); the lines of a record stand behind those of the record before it
(`exists_own_lines`).
-/

namespace DirectoryExchange.Ldif

/-! ### The lines of octets -/

/-- The lines of octets without their ends: what stands in front of each line feed, and what stands
behind the last one unless that is nothing. -/
def textLines (v : Bytes) : List Bytes :=
  let pieces := v.splitOn Bytes.lineFeed
  (if pieces.getLast? = some [] then pieces.dropLast else pieces).map dropReturn

/-- To split octets at line feeds is to cut them into lines, and the rest behind the last one. -/
lemma splitOn_lineFeed (v : Bytes) :
    v.splitOn Bytes.lineFeed = (cutLines v).1 ++ [(cutLines v).2] := by
  induction v with
  | nil => rfl
  | cons b rest ih =>
    rw [List.splitOn_eq_splitOnP] at ih ⊢
    rw [List.splitOnP_cons_eq_if_modifyHead, ih, cutLines]
    by_cases hb : b = Bytes.lineFeed
    · simp [hb]
    · cases hlines : (cutLines rest).1 <;> simp [hb, hlines]

/-- The lines of octets are those that end, and the rest if there is one, without returns. -/
lemma textLines_eq (v : Bytes) :
    textLines v = ((cutLines v).1 ++ if (cutLines v).2 = [] then [] else [(cutLines v).2]).map
      dropReturn := by
  rw [textLines, splitOn_lineFeed]
  split <;> simp_all

/-- What the first part has behind its last line feed goes on with the second. -/
lemma textLines_append (v w : Bytes) :
    textLines (v ++ w) = (cutLines v).1.map dropReturn ++ textLines ((cutLines v).2 ++ w) := by
  rw [textLines_eq, textLines_eq, cutLines_append]
  simp only [List.map_append, List.append_assoc]

/-- Behind a line feed the lines go on with those of what follows. -/
lemma textLines_append_of_ended {v : Bytes} (h : (cutLines v).2 = []) (w : Bytes) :
    textLines (v ++ w) = textLines v ++ textLines w := by
  rw [textLines_append, textLines_eq v, h, if_pos rfl, List.append_nil, List.nil_append]

/-- Octets have a line at least. -/
lemma textLines_ne_nil {v : Bytes} (h : v ≠ []) : textLines v ≠ [] := by
  intro hnil
  rw [textLines_eq, List.map_eq_nil_iff, List.append_eq_nil_iff] at hnil
  have htail : (cutLines v).2 = [] := by
    refine Classical.byContradiction fun hne => ?_
    rw [if_neg hne] at hnil
    exact absurd hnil.2 (List.cons_ne_nil _ _)
  have hv := unlines_cutLines v
  rw [hnil.1, htail] at hv
  exact h hv.symm

/-- There are not fewer lines in more octets. -/
lemma length_textLines_le {v w : Bytes} (h : v <+: w) :
    (textLines v).length ≤ (textLines w).length := by
  obtain ⟨more, rfl⟩ := h
  rw [textLines_append, textLines_eq v]
  split
  · simp
  · next hne =>
    have hmore := List.length_pos_iff.2
      (textLines_ne_nil (List.append_ne_nil_of_left_ne_nil hne more))
    simp only [List.length_map, List.length_append, List.length_singleton]
    omega

/-! ### Physical lines -/

/-- Whether a line ends at the position, or the source. -/
def EndsAt (source : Source) (position : Nat) : Prop :=
  (cutLines (source.bytes.take position)).2 = [] ∨ position = source.bytes.length

/-- Behind the end of a line there are more lines in more octets. -/
lemma EndsAt.length_textLines_lt {source : Source} {p q : Nat} (h : EndsAt source p) (hpq : p < q)
    (hq : q ≤ source.bytes.length) :
    (textLines (source.bytes.take p)).length < (textLines (source.bytes.take q)).length := by
  have hended := h.resolve_right (by omega)
  have htake : source.bytes.take q = source.bytes.take p ++ (source.bytes.drop p).take (q - p) := by
    rw [← List.take_add, Nat.add_sub_cancel' (Nat.le_of_lt hpq)]
  have hne : (source.bytes.drop p).take (q - p) ≠ [] := by
    intro hnil
    have hlength := congrArg List.length hnil
    rw [List.length_take, List.length_drop, List.length_nil] at hlength
    omega
  have hpos := List.length_pos_iff.2 (textLines_ne_nil hne)
  rw [htake, textLines_append_of_ended hended, List.length_append]
  omega

/-- A line stands behind others: its number is how many lines have been taken with it, and its text
is that of the last of them. -/
structure StandsBehind (source : Source) (xs : List PhysicalLine) (l : PhysicalLine) : Prop where
  /-- The lines are counted from 1. -/
  number : l.number = xs.length + 1
  /-- It is within the source. -/
  position_le : l.position ≤ source.bytes.length
  /-- It has been taken to its end. -/
  endsAt : EndsAt source l.position
  /-- These are the lines that have been taken with it. -/
  taken : textLines (source.bytes.take l.position) = (xs ++ [l]).map (·.text)
  /-- They are the first lines of the source. -/
  isPrefix : (xs ++ [l]).map (·.text) <+: textLines source.bytes

/-- Counted lines have the texts of those that were cut. -/
lemma map_text_countLines (number position : Nat) (lines : List Bytes) :
    (countLines number position lines).map (·.text) = lines.map dropReturn := by
  induction lines generalizing number position with
  | nil => rfl
  | cons line lines ih => rw [countLines, List.map_cons, List.map_cons, ih]

lemma map_text_append (number position : Nat) (lines : List Bytes) (l : PhysicalLine) :
    (countLines number position lines ++ [l]).map (·.text) = lines.map dropReturn ++ [l.text] := by
  rw [List.map_append, map_text_countLines, List.map_singleton]

lemma length_countLines (number position : Nat) (lines : List Bytes) :
    (countLines number position lines).length = lines.length := by
  have hlength := congrArg List.length (map_text_countLines number position lines)
  rwa [List.length_map, List.length_map] at hlength

/-- A line among those that are counted. -/
lemma exists_of_countLines_eq {number position : Nat} {lines : List Bytes}
    {xs ys : List PhysicalLine} {l : PhysicalLine}
    (h : countLines number position lines = xs ++ l :: ys) :
    ∃ front line more, lines = front ++ line :: more ∧ xs = countLines number position front ∧
      l = ⟨number + front.length + 1, dropReturn line,
        position + (unlines (front ++ [line])).length⟩ := by
  induction xs generalizing number position lines with
  | nil =>
    cases lines with
    | nil => cases h
    | cons line lines =>
      rw [countLines, List.nil_append, List.cons_eq_cons] at h
      refine ⟨[], line, lines, rfl, rfl, ?_⟩
      simp [← h.1, Nat.add_assoc]
  | cons x xs ih =>
    cases lines with
    | nil => cases h
    | cons line lines =>
      rw [countLines, List.cons_append, List.cons_eq_cons] at h
      obtain ⟨front, line', more, rfl, rfl, rfl⟩ := ih h.2
      refine ⟨line :: front, line', more, rfl, by rw [countLines, h.1], ?_⟩
      simp only [PhysicalLine.mk.injEq, List.length_cons, List.cons_append, unlines_cons,
        List.length_append, true_and]
      omega

/-- A line that a line feed ends. -/
lemma standsBehind_of_countLines_eq {source : Source} {xs ys : List PhysicalLine} {l : PhysicalLine}
    (h : countLines 0 0 (cutLines source.bytes).1 = xs ++ l :: ys) : StandsBehind source xs l := by
  obtain ⟨front, line, more, hlines, rfl, rfl⟩ := exists_of_countLines_eq h
  rw [Nat.zero_add, Nat.zero_add]
  have hsplit : source.bytes =
      unlines (front ++ [line]) ++ (unlines more ++ (cutLines source.bytes).2) := by
    have hbytes := unlines_cutLines source.bytes
    rw [hlines] at hbytes
    simpa using hbytes.symm
  have htaken : source.bytes.take (unlines (front ++ [line])).length =
      unlines (front ++ [line]) := by
    rw [hsplit, List.take_left]
  have hcut : cutLines (unlines (front ++ [line])) = (front ++ [line], []) := by
    have hnot : ∀ x ∈ front ++ [line], Bytes.lineFeed ∉ x := fun x hx =>
      (lineFeed_not_mem_cutLines source.bytes).1 x (by
        rw [hlines]
        exact List.IsPrefix.subset ⟨more, by simp⟩ hx)
    have hcut := cutLines_unlines hnot []
    rwa [List.append_nil, cutLines, List.append_nil] at hcut
  constructor
  · rw [length_countLines]
  · rw [← htaken, List.length_take]
    exact Nat.min_le_right _ _
  · left
    rw [htaken, hcut]
  · rw [htaken, map_text_append, textLines_eq, hcut, if_pos rfl, List.append_nil, List.map_append,
      List.map_singleton]
  · rw [map_text_append, textLines_eq, hlines]
    exact ⟨(more ++ if (cutLines source.bytes).2 = [] then [] else
      [(cutLines source.bytes).2]).map dropReturn, by simp⟩

/-- A line that no line feed ends. -/
lemma standsBehind_last {source : Source} (h : (cutLines source.bytes).2 ≠ []) :
    StandsBehind source (countLines 0 0 (cutLines source.bytes).1)
      ⟨(cutLines source.bytes).1.length + 1, dropReturn (cutLines source.bytes).2,
        source.bytes.length⟩ := by
  have htexts : textLines source.bytes =
      (cutLines source.bytes).1.map dropReturn ++ [dropReturn (cutLines source.bytes).2] := by
    rw [textLines_eq, if_neg h, List.map_append, List.map_singleton]
  constructor
  · rw [length_countLines]
  · exact Nat.le_refl _
  · exact .inr rfl
  · rw [List.take_length, htexts, map_text_append]
  · exact ⟨[], by rw [List.append_nil, map_text_append, htexts]⟩

/-- Every physical line stands behind those before it. -/
theorem standsBehind_of_physicalLines_eq {source : Source} {xs ys : List PhysicalLine}
    {l : PhysicalLine} (h : physicalLines source = xs ++ l :: ys) : StandsBehind source xs l := by
  have hended := @standsBehind_of_countLines_eq source xs
  have hlast := @standsBehind_last source
  rw [physicalLines] at h
  split at h
  next lines tail hcut =>
  rw [hcut] at hended hlast
  split at h
  · exact hended h
  · next hopen =>
    rcases List.eq_nil_or_concat ys with rfl | ⟨ys, last, rfl⟩
    · obtain ⟨rfl, hl⟩ := List.append_inj' h rfl
      obtain ⟨rfl, -⟩ := List.cons_eq_cons.1 hl
      exact hlast fun hnil => hopen (.inl hnil)
    · rw [List.concat_eq_append, ← List.cons_append, ← List.append_assoc] at h
      exact hended (List.append_inj' h rfl).1

/-! ### Gathering -/

/-- Whether a logical line begins on the line: it is not blank, no comment and no continuation
line. -/
def PhysicalLine.begins (l : PhysicalLine) : Bool :=
  match l.text with
  | [] => false
  | first :: _ => first != 0x23 && first != Bytes.space

/-- What has been gathered of the lines since the record before. -/
structure Gathers (own : List PhysicalLine) (g : Gathering) : Prop where
  /-- The logical lines have the numbers of the lines on which they begin. -/
  numbers : (g.newestFirst.reverse).map (·.number) = (own.filter (·.begins)).map (·.number)
  /-- A continuation line with nothing to continue has nothing or a blank line before it. -/
  orphan : ∀ n ∈ g.orphan, ∃ ahead line behind, own = ahead ++ line :: behind ∧ line.number = n ∧
    line.text.head? = some Bytes.space ∧ ∀ l ∈ ahead.getLast?, l.text = []
  /-- Where there is no record yet and no comment to go on, there is nothing or a blank line. -/
  fresh : g.isEmpty = true → g.inComment = false → ∀ l ∈ own.getLast?, l.text = []

namespace Gathers

variable {own : List PhysicalLine} {g : Gathering} {line : PhysicalLine}

lemma nil : Gathers [] {} where
  numbers := rfl
  orphan n hn := by cases hn
  fresh _ _ l hl := by cases hl

/-- A line on which no logical line begins adds no number. -/
lemma numbers_concat (h : Gathers own g) (hline : line.begins = false) :
    g.newestFirst.reverse.map (·.number) = ((own ++ [line]).filter (·.begins)).map (·.number) := by
  simp [h.numbers, List.filter_append, hline]

/-- The first line with nothing to continue is the same with another line behind it. -/
lemma orphan_concat (h : Gathers own g) (line : PhysicalLine) :
    ∀ n ∈ g.orphan, ∃ ahead l behind, own ++ [line] = ahead ++ l :: behind ∧ l.number = n ∧
      l.text.head? = some Bytes.space ∧ ∀ x ∈ ahead.getLast?, x.text = [] := by
  intro n hn
  obtain ⟨ahead, l, behind, rfl, hl⟩ := h.orphan n hn
  exact ⟨ahead, l, behind ++ [line], by simp, hl⟩

/-- A blank line before a record. -/
lemma blank (h : Gathers own g) (hline : line.text = []) :
    Gathers (own ++ [line]) { g with inComment := false } where
  numbers := h.numbers_concat (by rw [PhysicalLine.begins, hline])
  orphan := h.orphan_concat line
  fresh _ _ l hl := by
    rw [List.getLast?_concat] at hl
    obtain rfl := Option.some.inj hl
    exact hline

/-- A continuation line with nothing to continue. -/
lemma orphaned (h : Gathers own g) (hline : line.text.head? = some Bytes.space)
    (hbegins : line.begins = false) (hnewest : g.newestFirst = []) (hin : g.inComment = false) :
    Gathers (own ++ [line]) { g with orphan := g.orphan.or (some line.number) } where
  numbers := h.numbers_concat hbegins
  orphan n hn := by
    cases horphan : g.orphan with
    | some first =>
      rw [horphan, Option.some_or, ← horphan] at hn
      exact h.orphan_concat line n hn
    | none =>
      rw [horphan, Option.none_or] at hn
      obtain rfl := Option.some.inj hn
      have hempty : g.isEmpty = true := by simp [Gathering.isEmpty, hnewest, horphan]
      exact ⟨own, line, [], rfl, rfl, hline, h.fresh hempty hin⟩
  fresh hempty := by
    cases horphan : g.orphan <;> simp [Gathering.isEmpty, horphan] at hempty

/-- A line that is not blank. -/
lemma take (h : Gathers own g) {first : UInt8} {rest : Bytes} (hline : line.text = first :: rest) :
    Gathers (own ++ [line]) (g.take line.number first rest) := by
  have hbegins : line.begins = (first != 0x23 && first != Bytes.space) := by
    rw [PhysicalLine.begins, hline]
  unfold Gathering.take
  split
  · next hcomment =>
    exact ⟨h.numbers_concat (by simp [hbegins, hcomment]), h.orphan_concat line,
      fun _ hout => by cases hout⟩
  · next hnoComment =>
    split
    · next hspace =>
      have hfalse : line.begins = false := by simp [hbegins, hspace]
      have hsame := h.numbers_concat hfalse
      split
      · next hin =>
        exact ⟨hsame, h.orphan_concat line, fun _ hout => by cases hin.symm.trans hout⟩
      · next hin =>
        split
        · next last older hnewest =>
          rw [hnewest] at hsame
          exact ⟨by simpa using hsame, h.orphan_concat line, fun hempty => by cases hempty⟩
        · next hnewest =>
          have hhead : line.text.head? = some Bytes.space := by
            rw [hline, hspace]
            rfl
          exact h.orphaned hhead hfalse hnewest (Bool.eq_false_iff.2 hin)
    · next hnoSpace =>
      have htrue : line.begins = true := by simp [hbegins, hnoComment, hnoSpace]
      refine ⟨?_, h.orphan_concat line, fun hempty => by cases hempty⟩
      simp [h.numbers, List.filter_append, htrue]

end Gathers

/-- The lines of a record stand behind those of the record before it, which a blank line ends, and
before the blank line that ends it, unless the source does. -/
lemma exists_own_of_gather {final : Option Nat} {g : Gathering} {own lines : List PhysicalLine}
    (hown : Gathers own g) {before after : List RawRecord} {raw : RawRecord}
    (h : gather final g lines = before ++ raw :: after) :
    ∃ front mine behind flag, own ++ lines = front ++ mine ++ behind ∧
      Gathers mine ⟨raw.lines.reverse, raw.orphan, flag⟩ ∧
      (front.getLast?.map (·.position) = before.getLast?.map (·.position)) ∧
      (∀ l ∈ front.getLast?, l.text = []) ∧
      ((∃ line rest, behind = line :: rest ∧ line.text = [] ∧ raw.position = line.position) ∨
        (behind = [] ∧ final = some raw.position)) := by
  have hnone : ∀ l ∈ ([] : List PhysicalLine).getLast?, l.text = [] := by simp
  -- `own` are the lines that `g` was gathered from: they grow with it, or start anew
  induction lines generalizing g own before with
  | nil =>
    cases final with
    | none => simp [gather] at h
    | some position =>
      rw [gather] at h
      split at h
      · simp at h
      · obtain ⟨rfl, h⟩ := List.append_eq_singleton_iff.1 h.symm |>.resolve_right (by simp)
        obtain ⟨rfl, -⟩ := List.cons_eq_cons.1 h
        exact ⟨[], own, [], g.inComment, by simp, by simpa [Gathering.record] using hown, rfl,
          hnone, .inr ⟨rfl, rfl⟩⟩
  | cons line lines ih =>
    have happend : own ++ line :: lines = own ++ [line] ++ lines := by simp
    rw [gather] at h
    split at h
    · next hblank =>
      split at h
      · rw [happend]
        exact ih (hown.blank hblank) h
      · cases before with
        | nil =>
          obtain ⟨rfl, -⟩ := List.cons_eq_cons.1 h
          exact ⟨[], own, line :: lines, g.inComment, by simp,
            by simpa [Gathering.record] using hown, rfl, hnone,
            .inl ⟨line, lines, rfl, hblank, rfl⟩⟩
        | cons first before =>
          obtain ⟨rfl, hrest⟩ := List.cons_eq_cons.1 h
          obtain ⟨front, mine, behind, flag, hlines, hmine, hlast, htext, hend⟩ := ih .nil hrest
          rw [List.nil_append] at hlines
          have hfront : (own ++ line :: front).getLast? = some (front.getLast?.getD line) := by
            rw [List.getLast?_append, List.getLast?_cons, Option.some_or]
          refine ⟨own ++ line :: front, mine, behind, flag, by simp [hlines], hmine, ?_, ?_, hend⟩
          · have hposition : (g.record line.position).position = line.position := rfl
            rw [hfront, List.getLast?_cons, Option.map_some, Option.map_some,
              ← Option.getD_map PhysicalLine.position, ← Option.getD_map RawRecord.position, hlast,
              hposition]
          · rw [hfront]
            intro l hl
            obtain rfl := Option.some.inj hl
            cases hlast : front.getLast? with
            | none => exact hblank
            | some last => exact htext last hlast
    · next first rest htext =>
      rw [happend]
      exact ih (hown.take htext) h

/-! ### The lines of a record -/

/-- Where the last of the records ends, or where the source begins. -/
def lastPosition (raws : List RawRecord) : Nat := (raws.getLast?.map (·.position)).getD 0

/-- The lines that have been taken when `q` octets have been, but had not been with `p`. -/
def linesBetween (source : Source) (p q : Nat) : List PhysicalLine :=
  (physicalLines source).filter fun l => decide (p < l.position) && decide (l.position ≤ q)

/-- In ascending order the last one is the greatest. -/
lemma le_getLast_of_pairwise {ns : List Nat} (h : ns.Pairwise (· < ·)) {n : Nat} (hn : n ∈ ns) :
    n ≤ ns.getLast?.getD 0 := by
  obtain ⟨front, last, rfl⟩ := List.eq_nil_or_concat ns |>.resolve_left (List.ne_nil_of_mem hn)
  rw [List.concat_eq_append] at h hn ⊢
  rw [List.getLast?_concat, Option.getD_some]
  rcases List.mem_append.1 hn with hn | hn
  · exact Nat.le_of_lt ((List.pairwise_append.1 h).2.2 n hn last List.mem_cons_self)
  · exact Nat.le_of_eq (List.mem_singleton.1 hn)

/-- The last of some numbers is less than what all of them are less than. -/
lemma getLast_lt_of_forall {ns : List Nat} {n : Nat} (h : ∀ m ∈ ns, m < n) (hn : 0 < n) :
    ns.getLast?.getD 0 < n := by
  cases hlast : ns.getLast? with
  | none => exact hn
  | some m => exact h m (List.mem_of_getLast? hlast)

/-- Behind the lines before a record and up to its end, a logical line begins only on its own. -/
lemma filter_begins_between {p q : Nat} {front own behind : List PhysicalLine}
    (hfront : ∀ l ∈ front, l.position ≤ p) (hown : ∀ l ∈ own, p < l.position ∧ l.position ≤ q)
    (hbehind : ∀ l ∈ behind, l.position ≤ q → l.begins = false) :
    ((front ++ own ++ behind).filter fun l =>
      decide (p < l.position) && decide (l.position ≤ q)).filter (·.begins) =
      own.filter (·.begins) := by
  have hnoFront : front.filter (fun l => decide (p < l.position) && decide (l.position ≤ q)) =
      [] := by
    rw [List.filter_eq_nil_iff]
    intro l hl
    simp [Nat.not_lt.2 (hfront l hl)]
  have hallOwn : own.filter (fun l => decide (p < l.position) && decide (l.position ≤ q)) =
      own := by
    rw [List.filter_eq_self]
    intro l hl
    simp [hown l hl]
  have hnoBehind : (behind.filter fun l =>
      decide (p < l.position) && decide (l.position ≤ q)).filter (·.begins) = [] := by
    rw [List.filter_filter, List.filter_eq_nil_iff]
    intro l hl hbegins
    simp only [Bool.and_eq_true, decide_eq_true_eq] at hbegins
    exact absurd (hbehind l hl hbegins.2.2) (by simp [hbegins.1])
  rw [List.filter_append, List.filter_append, List.filter_append, List.filter_append, hnoFront,
    hallOwn, hnoBehind, List.filter_nil, List.nil_append, List.append_nil]

/-- The lines of a record stand behind the record before it and end with it, and of the lines that
are taken with it a logical line begins only on its own. -/
theorem exists_own_lines {source : Source} {before after : List RawRecord} {raw : RawRecord}
    (h : rawRecords source = before ++ raw :: after) :
    ∃ front own behind flag, physicalLines source = front ++ own ++ behind ∧
      Gathers own ⟨raw.lines.reverse, raw.orphan, flag⟩ ∧ (∀ l ∈ front.getLast?, l.text = []) ∧
      (∀ l ∈ own, lastPosition before < l.position ∧ l.position ≤ raw.position) ∧
      (linesBetween source (lastPosition before) raw.position).filter (·.begins) =
        own.filter (·.begins) := by
  obtain ⟨front, own, behind, flag, hlines, hown, hlast, htext, hend⟩ := exists_own_of_gather .nil h
  rw [List.nil_append] at hlines
  have hascends := ascends_physicalLines source
  have hbound : ∀ l ∈ own, 0 < l.position ∧ l.position ≤ source.bytes.length := by
    intro l hl
    refine hascends.lt_of_mem (List.mem_map_of_mem ?_)
    rw [hlines]
    simp [hl]
  -- positions ascend over all lines, which keeps those of other records out of the interval
  have hpairwise := hascends.pairwise
  rw [hlines, List.map_append, List.map_append, List.pairwise_append, List.pairwise_append]
    at hpairwise
  obtain ⟨⟨hfront, -, hfrontOwn⟩, hbehind, hownBehind⟩ := hpairwise
  have hstart : lastPosition before = ((front.map (·.position)).getLast?).getD 0 := by
    rw [lastPosition, ← hlast, List.getLast?_map]
  have hstop : (∀ l ∈ own, l.position ≤ raw.position) ∧
      ∀ l ∈ behind, l.position ≤ raw.position → l.begins = false := by
    rcases hend with ⟨blank, rest, rfl, hblank, hposition⟩ | ⟨rfl, hfinal⟩
    · rw [hposition]
      constructor
      · intro l hl
        exact Nat.le_of_lt (hownBehind _ (by simp [List.mem_map_of_mem hl]) _ (by simp))
      · intro l hl hle
        rcases List.mem_cons.1 hl with rfl | hl
        · rw [PhysicalLine.begins, hblank]
        · rw [List.map_cons, List.pairwise_cons] at hbehind
          exact absurd (hbehind.1 _ (List.mem_map_of_mem hl)) (Nat.not_lt.2 hle)
    · refine ⟨fun l hl => ?_, fun l hl => absurd hl List.not_mem_nil⟩
      split at hfinal
      · cases hfinal
      · rw [← Option.some.inj hfinal]
        exact (hbound l hl).2
  have hbetween : ∀ l ∈ own, lastPosition before < l.position ∧ l.position ≤ raw.position := by
    intro l hl
    refine ⟨?_, hstop.1 l hl⟩
    rw [hstart]
    exact getLast_lt_of_forall (fun m hm => hfrontOwn m hm _ (List.mem_map_of_mem hl))
      (hbound l hl).1
  refine ⟨front, own, behind, flag, hlines, hown, htext, hbetween, ?_⟩
  rw [linesBetween, hlines]
  refine filter_begins_between (fun l hl => ?_) hbetween hstop.2
  rw [hstart]
  exact le_getLast_of_pairwise hfront (List.mem_map_of_mem hl)

/-- A record is taken with the last one at the latest. -/
lemma position_le_lastPosition {source : Source} {before after : List RawRecord}
    (h : rawRecords source = before ++ after) {raw : RawRecord} (hraw : raw ∈ before) :
    raw.position ≤ lastPosition before := by
  have hpairwise := (ascends_rawRecords source).pairwise
  rw [h, List.map_append, List.pairwise_append] at hpairwise
  rw [lastPosition, ← List.getLast?_map]
  exact le_getLast_of_pairwise hpairwise.1 (List.mem_map_of_mem hraw)

/-- A record ends where a line does, or the source. -/
lemma endsAt_of_mem_rawRecords {source : Source} {raw : RawRecord} (h : raw ∈ rawRecords source) :
    EndsAt source raw.position := by
  rcases position_of_mem_gather h with ⟨line, hline, hposition⟩ | ⟨hfinal, -⟩
  · obtain ⟨xs, ys, hlines⟩ := List.append_of_mem hline
    rw [hposition]
    exact (standsBehind_of_physicalLines_eq hlines).endsAt
  · split at hfinal
    · cases hfinal
    · exact .inr (Option.some.inj hfinal).symm

end DirectoryExchange.Ldif

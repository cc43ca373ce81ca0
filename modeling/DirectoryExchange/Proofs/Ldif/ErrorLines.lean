import DirectoryExchange.Proofs.Ldif.Faults
import DirectoryExchange.Proofs.Ldif.LineNumbers

/-!
# The lines of errors

An error that is not of the stream is told of a line, and this line is among those that were taken
from the stream when the error was given and had not been taken before (`parse_error_line`).  It is
neither blank nor a comment, and it is a continuation line only where there is nothing to continue.
If the `dn` line of a record is missing, it is the first line of the record that could have been it.
-/

namespace DirectoryExchange.Ldif

/-- An error is told of a line of its record. -/
lemma exists_line_of_error {source : Source} {before after : List RawRecord} {raw : RawRecord}
    (h : rawRecords source = before ++ raw :: after) {versionAllowed : Bool} {e : ParseError}
    {told : List LogEvent} (hread : readRecord versionAllowed raw = (.error e, told)) :
    ∃ xs l ys, physicalLines source = xs ++ l :: ys ∧ e.location = .line l.number ∧
      (lastPosition before < l.position ∧ l.position ≤ raw.position) ∧
      l.text ≠ [] ∧ l.text.head? ≠ some 0x23 ∧
      (l.text.head? = some Bytes.space → e.kind = .malformedLine ∧
        ∀ previous ∈ xs.getLast?, previous.text = []) := by
  obtain ⟨front, own, behind, flag, hlines, hown, hfront, hbetween, -⟩ := exists_own_lines h
  -- the fault is at a line that continues nothing, or at one of the logical lines of the record
  rcases readRecord_error hread with ⟨n, horphan, rfl⟩ | ⟨l, hl, hlocation, -⟩
  · obtain ⟨ahead, line, rest, rfl, rfl, hspace, hahead⟩ := hown.orphan n horphan
    refine ⟨front ++ ahead, line, rest ++ behind, by simp [hlines], rfl, hbetween line (by simp),
      ?_, ?_, fun _ => ⟨rfl, ?_⟩⟩
    · intro hnil
      rw [hnil] at hspace
      cases hspace
    · rw [hspace]
      decide
    · intro previous hprevious
      rw [List.getLast?_append] at hprevious
      cases hlast : ahead.getLast? with
      | none =>
        rw [hlast, Option.none_or] at hprevious
        exact hfront previous hprevious
      | some last =>
        rw [hlast, Option.some_or] at hprevious
        exact hahead previous (hlast ▸ hprevious)
  · have hnumber : l.number ∈ (own.filter (·.begins)).map (·.number) := by
      rw [← hown.numbers, List.reverse_reverse]
      exact List.mem_map_of_mem hl
    obtain ⟨line, hfilter, hsame⟩ := List.mem_map.1 hnumber
    obtain ⟨hline, hbegins⟩ := List.mem_filter.1 hfilter
    obtain ⟨ahead, rest, rfl⟩ := List.append_of_mem hline
    refine ⟨front ++ ahead, line, rest ++ behind, by simp [hlines], ?_, hbetween line hline, ?_⟩
    · rw [hlocation, LogicalLine.location, hsame]
    · rw [PhysicalLine.begins] at hbegins
      split at hbegins
      · cases hbegins
      · next first more htext =>
        simp only [Bool.and_eq_true, bne_iff_ne] at hbegins
        rw [htext, List.head?_cons]
        exact ⟨List.cons_ne_nil _ _, fun hcomment => hbegins.1 (Option.some.inj hcomment),
          fun hspace => absurd (Option.some.inj hspace) hbegins.2⟩

/-- A missing `dn` line is missed where the first logical line begins that could have been it. -/
lemma number_of_missingDn {versionAllowed : Bool} {raw : RawRecord} {e : ParseError}
    {told : List LogEvent} (hread : readRecord versionAllowed raw = (.error e, told))
    (hmissing : e.kind = .missingDn) {n : Nat} (hlocation : e.location = .line n) :
    (raw.body versionAllowed).head?.map (·.number) = some n := by
  rcases readRecord_error hread with ⟨n, -, rfl⟩ | ⟨l, -, hl, hfirst⟩
  · cases hmissing
  · rw [hl, LogicalLine.location, Location.line.injEq] at hlocation
    rw [hfirst hmissing, Option.map_some, hlocation]

/-- Logical lines begin on the lines of their record that are neither blank nor comments nor
continuation lines. -/
lemma numbers_of_rawRecords {source : Source} {before after : List RawRecord} {raw : RawRecord}
    (h : rawRecords source = before ++ raw :: after) :
    raw.lines.map (·.number) =
      ((linesBetween source (lastPosition before) raw.position).filter (·.begins)).map
        (·.number) := by
  obtain ⟨front, own, behind, flag, -, hown, -, -, hbegins⟩ := exists_own_lines h
  rw [hbegins, ← hown.numbers, List.reverse_reverse]

/-- Whether the error is that of one of the records, with which the item ends, and the items given
before it end with records before that one. -/
def IsErrorOf (e : ParseError) (versionAllowed : Bool) (raws : List RawRecord) (given : List Item)
    (item : Item) : Prop :=
  ∃ before raw after told, raws = before ++ raw :: after ∧
    readRecord (versionAllowed && before.isEmpty) raw = (.error e, told) ∧
    item.position = raw.position ∧ ∀ i ∈ given, ∃ r ∈ before, i.position = r.position

namespace IsErrorOf

variable {e : ParseError} {versionAllowed : Bool} {raw : RawRecord} {raws : List RawRecord}
  {given given' : List Item} {item : Item}

/-- The error may be that of the first record. -/
lemma head {told : List LogEvent} (hread : readRecord versionAllowed raw = (.error e, told))
    (hposition : item.position = raw.position) :
    IsErrorOf e versionAllowed (raw :: raws) [] item :=
  ⟨[], raw, raws, told, rfl, by simpa using hread, hposition,
    fun _ hi => absurd hi List.not_mem_nil⟩

/-- The error may be that of a later record, behind the item of the first one if it has one. -/
lemma cons (h : IsErrorOf e false raws given item)
    (hgiven : ∀ i ∈ given', i.position = raw.position ∨ i ∈ given) :
    IsErrorOf e versionAllowed (raw :: raws) given' item := by
  obtain ⟨before, raw', after, told, rfl, hread, hposition, hbefore⟩ := h
  refine ⟨raw :: before, raw', after, told, rfl, by simpa using hread, hposition, ?_⟩
  intro i hi
  rcases hgiven i hi with hfirst | hi
  · exact ⟨raw, List.mem_cons_self, hfirst⟩
  · obtain ⟨r, hr, hsame⟩ := hbefore i hi
    exact ⟨r, List.mem_cons_of_mem _ hr, hsame⟩

end IsErrorOf

/-- An item that tells of an error ends with the record whose error it is. -/
lemma isErrorOf_of_feedRecords {source : Source} {versionAllowed : Bool} {events : List LogEvent}
    {raws : List RawRecord} {given rest : List Item} {item : Item} {e : ParseError}
    (h : (feedRecords source versionAllowed events raws).items = given ++ item :: rest)
    (he : item.outcome = .error (.parse e)) : IsErrorOf e versionAllowed raws given item := by
  induction raws generalizing versionAllowed events given with
  | nil =>
    rw [feedRecords] at h
    split at h
    · obtain ⟨rfl, h⟩ := List.append_eq_singleton_iff.1 h.symm |>.resolve_right (by simp)
      obtain ⟨rfl, -⟩ := List.cons_eq_cons.1 h
      cases he
    · simp at h
  | cons raw raws ih =>
    have hfirst : ∀ {first : Item} {more : List Item}, first.position = raw.position →
        ∀ i ∈ first :: more, i.position = raw.position ∨ i ∈ more := by
      intro first more hposition i hi
      refine (List.mem_cons.1 hi).imp_left ?_
      rintro rfl
      exact hposition
    rw [feedRecords] at h
    split at h
    · exact (ih h).cons fun i hi => .inr hi
    · rw [Feed.items_cons, List.cons_eq_append_iff] at h
      rcases h with ⟨-, hitem⟩ | ⟨given', rfl, h⟩
      · obtain ⟨rfl, -⟩ := List.cons_eq_cons.1 hitem
        cases he
      · exact (ih h).cons (hfirst rfl)
    · next e' told hread =>
      simp only at h
      split at h
      · rw [Feed.items_cons, List.cons_eq_append_iff] at h
        rcases h with ⟨rfl, hitem⟩ | ⟨given', rfl, h⟩
        · obtain ⟨rfl, -⟩ := List.cons_eq_cons.1 hitem
          cases he
          exact .head hread rfl
        · exact (ih h).cons (hfirst rfl)
      · obtain ⟨rfl, h⟩ := List.append_eq_singleton_iff.1 h.symm |>.resolve_right (by simp)
        obtain ⟨rfl, -⟩ := List.cons_eq_cons.1 h
        cases he
        exact .head hread rfl

/-- Behind items that end with some of the records a line ends, as one does in front of them all. -/
lemma endsAt_getLast {source : Source} {before after : List RawRecord} {given : List Item}
    (h : rawRecords source = before ++ after)
    (hgiven : ∀ i ∈ given, ∃ r ∈ before, i.position = r.position) :
    EndsAt source ((given.getLast?.map (·.position)).getD 0) ∧
      (given.getLast?.map (·.position)).getD 0 ≤ lastPosition before := by
  cases hlast : given.getLast? with
  | none => exact ⟨.inl rfl, Nat.zero_le _⟩
  | some i =>
    obtain ⟨raw, hraw, hposition⟩ := hgiven i (List.mem_of_getLast? hlast)
    rw [Option.map_some, Option.getD_some, hposition]
    refine ⟨endsAt_of_mem_rawRecords ?_, position_le_lastPosition h hraw⟩
    rw [h]
    exact List.mem_append_left _ hraw

/-- A parse error, whatever the reader has been asked for before, is told of a line: one of those
that were taken from the stream with this call.  It is not blank and no comment, and it begins with
a space only if it is a continuation line that is the first line of the source or stands directly
behind a blank line, where there is nothing to continue.  If it is that there is no `dn` line, the
line is the one on which the first logical line of the record begins, or the second if the record
is the first of the source and begins with a version line; logical lines begin on the lines of the
record that are neither blank nor comments nor continuation lines. -/
theorem parse_error_line (source : Source) (calls : List Reader.Call) {item : Item} {r' : Reader}
    (hnext : ((Reader.ofFeed (feed source)).callAll calls).2.next = (some item, r'))
    {e : ParseError} (he : item.outcome = .error (.parse e)) :
    let r := ((Reader.ofFeed (feed source)).callAll calls).2
    ∃ n text, e.location = .line n ∧
      (textLines (source.bytes.take r.position)).length < n ∧
      n ≤ (textLines (source.bytes.take r'.position)).length ∧
      (textLines source.bytes)[n - 1]? = some text ∧ text ≠ [] ∧ text.head? ≠ some 0x23 ∧
      (text.head? = some Bytes.space → e.kind = .malformedLine ∧
        (n = 1 ∨ (textLines source.bytes)[n - 2]? = some [])) ∧
      (e.kind = .missingDn → ∃ before raw after, rawRecords source = before ++ raw :: after ∧
        raw.position = r'.position ∧
        raw.lines.map (·.number) =
          ((linesBetween source (lastPosition before) raw.position).filter (·.begins)).map
            (·.number) ∧
        (raw.body before.isEmpty).head?.map (·.number) = some n) := by
  intro r
  have hstart : (feed source).startPosition = 0 := startPosition_feedRecords _ _ _ _
  have hwithin : r.Within (feed source) :=
    Reader.Within.callAll (.inr ⟨[], rfl, rfl⟩) calls
  obtain ⟨given, rest, hitems, hposition, hposition'⟩ := hwithin.of_next hnext
  rw [hstart] at hposition
  obtain ⟨before, raw, after, told, hraws, hread, hraw, hgiven⟩ :=
    isErrorOf_of_feedRecords hitems he
  obtain ⟨xs, l, ys, hlines, hlocation, hbetween, hblank, hcomment, hspace⟩ :=
    exists_line_of_error hraws hread
  have hstands := standsBehind_of_physicalLines_eq hlines
  have hnumber : (textLines (source.bytes.take l.position)).length = l.number := by
    rw [hstands.taken, hstands.number, List.length_map, List.length_append, List.length_singleton]
  obtain ⟨hends, hle⟩ := endsAt_getLast hraws hgiven
  rw [← hposition] at hends hle
  -- the lines of the source up to that of the error
  obtain ⟨more, htexts⟩ := hstands.isPrefix
  refine ⟨l.number, l.text, hlocation, ?_, ?_, ?_, hblank, hcomment, ?_, ?_⟩
  · rw [← hnumber]
    exact hends.length_textLines_lt (Nat.lt_of_le_of_lt hle hbetween.1) hstands.position_le
  · rw [← hnumber]
    refine length_textLines_le (List.take_prefix_take_left ?_)
    rw [hposition', hraw]
    exact hbetween.2
  · rw [← htexts, hstands.number]
    simp
  · intro hfirst
    obtain ⟨hkind, hprevious⟩ := hspace hfirst
    refine ⟨hkind, ?_⟩
    rcases List.eq_nil_or_concat xs with rfl | ⟨init, previous, rfl⟩
    · exact .inl hstands.number
    · right
      rw [List.concat_eq_append] at hprevious hstands htexts
      rw [← htexts, hstands.number]
      simp [hprevious previous List.getLast?_concat]
  · intro hmissing
    refine ⟨before, raw, after, hraws, hraw.symm.trans hposition'.symm,
      numbers_of_rawRecords hraws, ?_⟩
    exact number_of_missingDn hread hmissing hlocation

/-- The second record begins with a comment of two lines, behind which its name is missing. -/
theorem parse_error_line_behindComment :
    let source : Source := { bytes := [0x64, 0x6E, 0x3A, 0x20, 0x62, 0x0A, 0x61, 0x3A, 0x20, 0x63,
      0x0A, 0x0A, 0x23, 0x20, 0x64, 0x0A, 0x20, 0x65, 0x0A, 0x78, 0x3A, 0x20, 0x79, 0x0A] }
    let r := ((Reader.ofFeed (feed source)).callAll [.next]).2
    ∃ item r', r.next = (some item, r') ∧
      item.outcome = .error (.parse (.fatal .missingDn (.line 6))) ∧
      (textLines (source.bytes.take r.position)).length < 6 ∧
      6 ≤ (textLines (source.bytes.take r'.position)).length ∧
      ∃ before raw after, rawRecords source = before ++ raw :: after ∧
        (raw.body before.isEmpty).head?.map (·.number) = some 6 := by
  intro source r
  obtain ⟨item, r', hnext, he⟩ : ∃ item r', r.next = (some item, r') ∧
      item.outcome = .error (.parse (.fatal .missingDn (.line 6))) := ⟨_, _, rfl, rfl⟩
  obtain ⟨n, text, hlocation, htaken, hgiven, -, -, -, -, hmissing⟩ :=
    parse_error_line source [.next] hnext he
  obtain rfl : 6 = n := Location.line.inj hlocation
  obtain ⟨before, raw, after, hraws, -, -, hfirst⟩ := hmissing rfl
  exact ⟨item, r', hnext, he, htaken, hgiven, before, raw, after, hraws, hfirst⟩

end DirectoryExchange.Ldif

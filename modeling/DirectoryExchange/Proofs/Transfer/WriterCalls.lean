import DirectoryExchange.Proofs.Ldif.Separation
import DirectoryExchange.Proofs.Transfer.Dumping

/-!
# Writers on failing streams

A writer may be asked for anything in any order, and its stream may refuse any write.  An entry that
is refused leaves no trace: what is in the output is the document of the entries that were answered
with success, up to the first closing (`callAll_create`).
-/

namespace DirectoryExchange.Writer

open Transfer (Closes exists_closes dumpDocument written_write written_writeOptional)

variable {ω : Type}

/-- What a writer is asked for. -/
inductive Call where
  /-- To write an entry. -/
  | print (entry : Entry)
  /-- To close. -/
  | close
  deriving DecidableEq

/-- What the writer answers, and how it goes on. -/
def call (w : Writer ω) : Call → Except StreamError Unit × Writer ω
  | .print entry => w.print entry
  | .close => w.close

/-- What the writer answers to one call after the other, and how it is left. -/
def callAll (w : Writer ω) : List Call → List (Except StreamError Unit) × Writer ω
  | [] => ([], w)
  | c :: rest =>
    let (answer, w) := w.call c
    let (answers, last) := w.callAll rest
    (answer :: answers, last)

/-- The entries whose writing was answered with success. -/
def printed : List Call → List (Except StreamError Unit) → List Entry
  | .print entry :: calls, .ok _ :: answers => entry :: printed calls answers
  | _ :: calls, _ :: answers => printed calls answers
  | _, _ => []

/-- What a closed writer answers. -/
def closedAnswer (format : Format) : Call → Except StreamError Unit
  | .print _ => .error (closedError format)
  | .close => .ok ()

/-! ### Calls one after the other -/

@[simp] lemma callAll_nil (w : Writer ω) : w.callAll [] = ([], w) := rfl

@[simp] lemma callAll_cons (w : Writer ω) (c : Call) (rest : List Call) :
    w.callAll (c :: rest) = ((w.call c).1 :: ((w.call c).2.callAll rest).1,
      ((w.call c).2.callAll rest).2) := rfl

/-- Calls in two parts are answered part by part. -/
lemma callAll_append (w : Writer ω) (before behind : List Call) :
    w.callAll (before ++ behind) = ((w.callAll before).1 ++ ((w.callAll before).2.callAll behind).1,
      ((w.callAll before).2.callAll behind).2) := by
  induction before generalizing w with
  | nil => rfl
  | cons c before ih => simp only [List.cons_append, callAll_cons, ih]

/-- Every call has an answer. -/
@[simp] lemma length_callAll (w : Writer ω) (calls : List Call) :
    (w.callAll calls).1.length = calls.length := by
  induction calls generalizing w with
  | nil => rfl
  | cons c calls ih => simp only [callAll_cons, List.length_cons, ih]

/-- What was printed in two parts follows each other. -/
lemma printed_append {before : List Call} {answers : List (Except StreamError Unit)}
    (h : answers.length = before.length) (behind : List Call)
    (more : List (Except StreamError Unit)) :
    printed (before ++ behind) (answers ++ more) =
      printed before answers ++ printed behind more := by
  induction before generalizing answers with
  | nil =>
    obtain rfl := List.length_eq_zero_iff.1 h
    rfl
  | cons c before ih =>
    obtain ⟨answer, answers, rfl⟩ := List.exists_cons_of_length_eq_add_one h
    have hlength : answers.length = before.length := Nat.succ.inj h
    cases c with
    | close => exact ih hlength
    | print entry =>
      cases answer with
      | error e => exact ih hlength
      | ok u => exact congrArg (entry :: ·) (ih hlength)

/-! ### A closed writer -/

/-- A closed writer refuses every entry and does nothing. -/
lemma callAll_of_closed {w : Writer ω} (h : w.closed = true) (calls : List Call) :
    w.callAll calls = (calls.map (closedAnswer w.format), w) := by
  induction calls with
  | nil => rfl
  | cons c calls ih =>
    have hcall : w.call c = (closedAnswer w.format c, w) := by
      cases c with
      | print entry => exact if_pos h
      | close => exact if_pos h
    rw [callAll_cons, hcall, ih, List.map_cons]

/-- A closed writer prints nothing. -/
lemma printed_closedAnswer (format : Format) (calls : List Call) :
    printed calls (calls.map (closedAnswer format)) = [] := by
  induction calls with
  | nil => rfl
  | cons c calls ih => cases c <;> exact ih

/-! ### An open writer -/

section Open

variable (format : Format) (o : Output ω) (n : Nat)

/-- An open writer answers for an entry as its stream answers for the one write. -/
lemma print_of_open (entry : Entry) :
    ((⟨format, o, n, false⟩ : Writer ω).print entry).1 =
      (o.write (format.renderNext n entry)).1 := by
  rcases hwrite : o.write (format.renderNext n entry) with ⟨e | ⟨⟩, o'⟩ <;>
    simp [print, hwrite]

/-- As long as it is not closed, a writer has written the entries that it answered with success, and
counted them. -/
lemma callAll_of_open {calls : List Call} (h : Call.close ∉ calls) :
    let run := (⟨format, o, n, false⟩ : Writer ω).callAll calls
    ∃ last, run.2 = ⟨format, last, n + (printed calls run.1).length, false⟩ ∧
      last.written = o.written ++ format.renderFrom n (printed calls run.1) := by
  -- `n` counts the entries that were printed; one that is refused does not count
  induction calls generalizing o n with
  | nil => exact ⟨o, rfl, (List.append_nil _).symm⟩
  | cons c calls ih =>
    rw [List.mem_cons, not_or] at h
    cases c with
    | close => exact absurd rfl h.1
    | print entry =>
      rcases hwrite : o.write (format.renderNext n entry) with ⟨e | ⟨⟩, o'⟩
      · have hcall : (⟨format, o, n, false⟩ : Writer ω).call (.print entry) =
            (.error e, ⟨format, o', n, false⟩) := by
          simp [call, print, hwrite]
        obtain ⟨last, hlast, hwritten⟩ := ih o' n h.2
        simp only [callAll_cons, hcall, printed]
        refine ⟨last, hlast, ?_⟩
        rw [hwritten, written_write hwrite]
        simp [Except.isOk, Except.toBool]
      · have hcall : (⟨format, o, n, false⟩ : Writer ω).call (.print entry) =
            (.ok (), ⟨format, o', n + 1, false⟩) := by
          simp [call, print, hwrite]
        obtain ⟨last, hlast, hwritten⟩ := ih o' (n + 1) h.2
        simp only [callAll_cons, hcall, printed, List.length_cons]
        refine ⟨last, ?_, ?_⟩
        · rw [hlast, Nat.add_assoc, Nat.add_comm 1]
        · rw [hwritten, written_write hwrite, Format.renderFrom, List.append_assoc]
          rfl

/-- An entry that is asked for before the closing is answered by its write, behind as many entries
as were written by then. -/
lemma getElem?_callAll_of_open {before : List Call} (h : Call.close ∉ before) (entry : Entry)
    (behind : List Call) :
    let run := (⟨format, o, n, false⟩ : Writer ω).callAll before
    ((⟨format, o, n, false⟩ : Writer ω).callAll (before ++ .print entry :: behind)).1[
        before.length]? =
      some (run.2.output.write
        (format.renderNext (n + (printed before run.1).length) entry)).1 := by
  intro run
  obtain ⟨reached, hreached, -⟩ := callAll_of_open format o n h
  have hlength : ((⟨format, o, n, false⟩ : Writer ω).callAll before).1.length = before.length :=
    length_callAll _ _
  rw [callAll_append, List.getElem?_append_right (by rw [hlength]), hlength, Nat.sub_self,
    callAll_cons, List.getElem?_cons_zero]
  change some (run.2.print entry).1 = _
  have hrun : run.2 = _ := hreached
  rw [hrun, print_of_open]

/-- An open writer is closed once, by the rules, or not at all. -/
lemma exists_ending (calls : List Call) :
    let w : Writer ω := ⟨format, o, n, false⟩
    let run := w.callAll calls
    ∃ whole, run.2.output.written = o.written ++ format.renderFrom n (printed calls run.1) ++
        (if whole then format.epilogue?.getD [] else []) ∧
      ((.close ∉ calls ∧ whole = false) ∨
        ∃ before behind closing, calls = before ++ .close :: behind ∧ .close ∉ before ∧
          Closes format (w.callAll before).2.output whole closing run.2.output ∧
          run.1 = (w.callAll before).1 ++ closing :: behind.map (closedAnswer format)) := by
  intro w run
  by_cases hclose : .close ∈ calls
  -- the first call to close is the one that counts
  · obtain ⟨before, behind, rfl, hbefore⟩ := List.eq_append_cons_of_mem hclose
    obtain ⟨reached, hreached, hwritten⟩ := callAll_of_open format o n hbefore
    obtain ⟨whole, closing, last, hcloses⟩ := exists_closes format reached
    have hclosing : (w.callAll before).2.call .close =
        (closing, ⟨format, last, n + (printed before (w.callAll before).1).length, true⟩) := by
      have hw : (w.callAll before).2 = _ := hreached
      rw [hw]
      exact hcloses.close_eq _
    have hrun : run = ((w.callAll before).1 ++ closing :: behind.map (closedAnswer format),
        ⟨format, last, n + (printed before (w.callAll before).1).length, true⟩) := by
      change w.callAll _ = _
      rw [callAll_append, callAll_cons, hclosing,
        callAll_of_closed (w := ⟨format, last, _, true⟩) rfl]
    have hprinted : printed (before ++ .close :: behind) run.1 =
        printed before (w.callAll before).1 := by
      rw [hrun, printed_append (length_callAll _ _)]
      change _ ++ printed behind _ = _
      rw [printed_closedAnswer, List.append_nil]
    refine ⟨whole, ?_, .inr ⟨before, behind, closing, rfl, hbefore, ?_, by rw [hrun]⟩⟩
    · rw [hprinted, hrun]
      exact hcloses.written_eq.trans (congrArg (· ++ _) hwritten)
    · have hw : (w.callAll before).2 = _ := hreached
      rw [hrun, hw]
      exact hcloses
  · obtain ⟨last, hlast, hwritten⟩ := callAll_of_open format o n hclose
    refine ⟨false, ?_, .inl ⟨hclose, rfl⟩⟩
    have hrun : run.2 = _ := hlast
    rw [hrun, hwritten, if_neg Bool.false_ne_true, List.append_nil]

end Open

/-! ### What is in the output -/

/-- A document that is over is read as what the format carries of its entries. -/
lemma outcomes_open?_dumpDocument {format : Format} {entries : List Entry} {whole : Bool}
    (hwhole : whole = true ∨ format = .ldif)
    (hnames : ∀ e ∈ entries, ∀ a ∈ e.attributes, format.Carries a.name) (portion : Option Nat) :
    ∃ feed, format.open? { bytes := dumpDocument format entries whole, portion } = .ok feed ∧
      feed.items.map (·.outcome) = entries.map fun e => .ok (.add (format.carried e)) := by
  have hrender : dumpDocument format entries whole = format.render entries := by
    rcases hwhole with rfl | rfl
    · rfl
    · cases whole <;> rfl
  rw [hrender]
  exact format.outcomes_open?_render hnames portion

/-- The document of the format without an epilogue is the records with line feeds between them. -/
lemma dumpDocument_ldif (entries : List Entry) (whole : Bool) :
    dumpDocument .ldif entries whole =
      [Bytes.lineFeed].intercalate (entries.map Ldif.renderEntry) := by
  rw [← Ldif.renderFrom_eq_intercalate]
  cases whole <;> exact List.append_nil _

/-- A writer that was created answers every call, and an entry that is asked for before the first
closing as its one write is answered.  What it leaves is the prolog, the entries that it answered
with success, with a blank line between any two of them if the format is one of lines, and the
epilogue if it was closed and the write of the epilogue did not fail.  From the first closing on it
refuses every entry, closes without doing anything, and nothing is written.  If the document is
over, and the format can carry the names of the attributes, it is read as those entries again. -/
theorem callAll_create (format : Format) (output : Output ω) (calls : List Call) :
    match create format output with
    | (.error _, w) => w.output.written = output.written
    | (.ok _, w) =>
      let answers := (w.callAll calls).1
      let last := (w.callAll calls).2.output
      let entries := printed calls answers
      answers.length = calls.length ∧
      (∀ before entry behind, calls = before ++ .print entry :: behind → .close ∉ before →
        let reached := w.callAll before
        answers[before.length]? = some (reached.2.output.write
          (format.renderNext (printed before reached.1).length entry)).1) ∧
      ∃ whole, last.written = output.written ++ dumpDocument format entries whole ∧
        ((.close ∉ calls ∧ whole = false) ∨
          ∃ before behind closing, calls = before ++ .close :: behind ∧ .close ∉ before ∧
            Closes format (w.callAll before).2.output whole closing last ∧
            answers = (w.callAll before).1 ++ closing :: behind.map (closedAnswer format)) ∧
        (format = .ldif →
          dumpDocument format entries whole =
              [Bytes.lineFeed].intercalate (entries.map Ldif.renderEntry) ∧
            ∀ e ∈ entries, Ldif.Framed (Ldif.renderEntry e)) ∧
        (whole = true ∨ format = .ldif →
          (∀ e ∈ entries, ∀ a ∈ e.attributes, format.Carries a.name) →
          ∀ portion, ∃ feed,
            format.open? { bytes := dumpDocument format entries whole, portion } = .ok feed ∧
            feed.items.map (·.outcome) = entries.map fun e => .ok (.add (format.carried e))) := by
  rcases hprolog : writeOptional output format.prolog? with ⟨e | ⟨⟩, o⟩
  · simpa [create, hprolog, Except.isOk, Except.toBool] using written_writeOptional hprolog
  · simp only [create, hprolog]
    obtain ⟨whole, hwritten, hending⟩ := exists_ending format o 0 calls
    refine ⟨length_callAll _ _, ?_, whole, ?_, hending, ?_, outcomes_open?_dumpDocument⟩
    · rintro before entry behind rfl hbefore
      have hanswer := getElem?_callAll_of_open format o 0 hbefore entry behind
      simpa only [Nat.zero_add] using hanswer
    · rw [hwritten, written_writeOptional hprolog, dumpDocument]
      simp [Except.isOk, Except.toBool]
    · rintro rfl
      exact ⟨dumpDocument_ldif _ _, fun e _ => Ldif.framed_renderEntry e⟩

/-- An entry is refused that does not fit, and a smaller one behind it is taken. -/
theorem callAll_create_smallerFits :
    let first : Entry := ⟨"b", [⟨"a", [[0x63]], by decide, by decide⟩], by decide, by decide⟩
    let large : Entry := ⟨"d", [⟨"a", [[0x65, 0x66]], by decide, by decide⟩], by decide, by decide⟩
    let small : Entry := ⟨"d", [⟨"a", [[0x65]], by decide, by decide⟩], by decide, by decide⟩
    let calls : List Call :=
      [.print first, .print large, .print small, .close, .print first, .close]
    let output : Output Nat := ⟨Sink.bounded (some 23) ⟨"full"⟩ (some ⟨"unflushed"⟩), 0, [], 0⟩
    let w := (create .ldif output).2
    (w.callAll calls).1 = [.ok (), .error ⟨"full"⟩, .ok (), .error ⟨"unflushed"⟩,
        .error ⟨"LDIF writer is closed"⟩, .ok ()] ∧
      ∃ feed, Format.ldif.open? { bytes := (w.callAll calls).2.output.written } = .ok feed ∧
        feed.items.map (·.outcome) = [.ok (.add first), .ok (.add small)] := by
  intro first large small calls output w
  have hanswers : (w.callAll calls).1 = [.ok (), .error ⟨"full"⟩, .ok (), .error ⟨"unflushed"⟩,
      .error ⟨"LDIF writer is closed"⟩, .ok ()] := by
    decide +kernel
  have hentries : printed calls (w.callAll calls).1 = [first, small] := by
    rw [hanswers]
    rfl
  have hnames : ∀ e ∈ [first, small], ∀ a ∈ e.attributes, Format.ldif.Carries a.name := by
    have hname : ∀ e ∈ [first, small], ∀ a ∈ e.attributes, a.name = "a" := by decide
    intro e he a ha _
    rw [hname e he a ha]
    exact ⟨by constructor <;> decide, by decide⟩
  have hdocument := callAll_create .ldif output calls
  have hcreate : create .ldif output = (.ok (), w) := rfl
  rw [hcreate] at hdocument
  obtain ⟨-, -, whole, hwritten, -, -, hread⟩ := hdocument
  rw [hentries] at hwritten hread
  obtain ⟨feed, hopen, houtcomes⟩ := hread (.inr rfl) hnames none
  refine ⟨hanswers, feed, ?_, houtcomes⟩
  rw [hwritten]
  change Format.ldif.open? { bytes := [] ++ _ } = _
  rw [List.nil_append, hopen]

end DirectoryExchange.Writer

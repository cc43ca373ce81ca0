import DirectoryExchange.Writer
import Mathlib.Tactic.Lemma

/-!
# Writing a document

A document is written by creating a writer, printing the entries and closing the writer.  If the
stream takes everything, every step succeeds and the octets taken are those that the format renders
(`writeDocument_of_reliable`).
-/

namespace DirectoryExchange

variable {ω : Type}

/-- A stream that never refuses a write or a flush. -/
structure Sink.Reliable (s : Sink ω) : Prop where
  /-- Every write is taken. -/
  write : ∀ state octets, (s.write state octets).1 = .ok ()
  /-- Every flush succeeds. -/
  flush : ∀ state, (s.flush state).1 = .ok ()

lemma Sink.reliable_boundless : boundless.Reliable := ⟨fun _ _ => rfl, fun _ => rfl⟩

namespace Output

/-- A reliable stream takes the octets behind those that it has taken. -/
lemma write_of_reliable {o : Output ω} (h : o.sink.Reliable) (octets : Bytes) :
    ∃ o', o.write octets = (.ok (), o') ∧ o'.sink = o.sink ∧ o'.written = o.written ++ octets := by
  have hwrite := h.write o.state octets
  unfold write
  split
  · next state heq => exact ⟨_, rfl, rfl, rfl⟩
  · next e state heq =>
    rw [heq] at hwrite
    exact absurd hwrite (by simp)

/-- A reliable sink is flushed without loss. -/
lemma flush_of_reliable {o : Output ω} (h : o.sink.Reliable) :
    ∃ o', o.flush = (.ok (), o') ∧ o'.sink = o.sink ∧ o'.written = o.written := by
  refine ⟨{ o with state := (o.sink.flush o.state).2 }, ?_, rfl, rfl⟩
  rw [flush, ← h.flush o.state]

end Output

namespace Writer

/-- Writes the entries one after the other, up to the first failure. -/
def printAll (w : Writer ω) : List Entry → Except StreamError Unit × Writer ω
  | [] => (.ok (), w)
  | entry :: rest =>
    match w.print entry with
    | (.ok _, w) => w.printAll rest
    | (.error e, w) => (.error e, w)

/-- Writes the document of the entries: creates a writer, prints every entry and closes the
writer. -/
def writeDocument (format : Format) (output : Output ω) (entries : List Entry) :
    Except StreamError Unit × Writer ω :=
  match create format output with
  | (.error e, w) => (.error e, w)
  | (.ok _, w) =>
    match w.printAll entries with
    | (.error e, w) => (.error e, w)
    | (.ok _, w) => w.close

/-- A reliable sink takes the octets, if there are any. -/
lemma writeOptional_of_reliable {o : Output ω} (h : o.sink.Reliable) (octets : Option Bytes) :
    ∃ o', writeOptional o octets = (.ok (), o') ∧ o'.sink = o.sink ∧
      o'.written = o.written ++ octets.getD [] := by
  cases octets with
  | none => exact ⟨o, rfl, rfl, by simp⟩
  | some octets => exact o.write_of_reliable h octets

/-- A writer on a reliable stream begins with the prolog. -/
lemma create_of_reliable {output : Output ω} (h : output.sink.Reliable) (format : Format) :
    ∃ w, create format output = (.ok (), w) ∧ w.format = format ∧ w.entriesWritten = 0 ∧
      w.closed = false ∧ w.output.sink = output.sink ∧
      w.output.written = output.written ++ format.prolog?.getD [] := by
  obtain ⟨o, ho, hsink, hwritten⟩ := writeOptional_of_reliable h format.prolog?
  refine ⟨{ format, output := o }, ?_, rfl, rfl, rfl, hsink, hwritten⟩
  rw [create, ho]

/-- An open writer on a reliable stream takes every entry. -/
lemma print_of_reliable {w : Writer ω} (h : w.output.sink.Reliable) (hopen : w.closed = false)
    (entry : Entry) :
    ∃ w', w.print entry = (.ok (), w') ∧ w'.format = w.format ∧
      w'.entriesWritten = w.entriesWritten + 1 ∧ w'.closed = false ∧
      w'.output.sink = w.output.sink ∧
      w'.output.written = w.output.written ++ w.format.renderNext w.entriesWritten entry := by
  obtain ⟨o, ho, hsink, hwritten⟩ :=
    w.output.write_of_reliable h (w.format.renderNext w.entriesWritten entry)
  refine ⟨{ w with output := o, entriesWritten := w.entriesWritten + 1 }, ?_, rfl, rfl, hopen,
    hsink, hwritten⟩
  rw [print, hopen, if_neg Bool.false_ne_true, ho]

/-- On a reliable sink all entries are printed, one behind the other. -/
lemma printAll_of_reliable {w : Writer ω} (h : w.output.sink.Reliable) (hopen : w.closed = false)
    (entries : List Entry) :
    ∃ w', w.printAll entries = (.ok (), w') ∧ w'.format = w.format ∧ w'.closed = false ∧
      w'.output.sink = w.output.sink ∧
      w'.output.written = w.output.written ++ w.format.renderFrom w.entriesWritten entries := by
  induction entries generalizing w with
  | nil => exact ⟨w, rfl, rfl, hopen, rfl, by simp [Format.renderFrom]⟩
  | cons entry rest ih =>
    obtain ⟨w₁, hprint, hformat, hcount, hopen₁, hsink, hwritten⟩ := print_of_reliable h hopen entry
    obtain ⟨w₂, hall, hformat₂, hopen₂, hsink₂, hwritten₂⟩ := ih (hsink ▸ h) hopen₁
    refine ⟨w₂, ?_, hformat₂.trans hformat, hopen₂, hsink₂.trans hsink, ?_⟩
    · rw [printAll, hprint]
      exact hall
    · rw [hwritten₂, hwritten, hformat, hcount, Format.renderFrom, List.append_assoc]

/-- An open writer on a reliable stream ends with the epilogue. -/
lemma close_of_reliable {w : Writer ω} (h : w.output.sink.Reliable) (hopen : w.closed = false) :
    ∃ w', w.close = (.ok (), w') ∧
      w'.output.written = w.output.written ++ w.format.epilogue?.getD [] := by
  obtain ⟨o, ho, hsink, hwritten⟩ := writeOptional_of_reliable h w.format.epilogue?
  obtain ⟨o', hflush, -, hwritten'⟩ := Output.flush_of_reliable (o := o) (hsink ▸ h)
  refine ⟨{ w with output := o', closed := true }, ?_, hwritten'.trans hwritten⟩
  rw [close, hopen, if_neg Bool.false_ne_true, ho]
  simp only [hflush]

/-- On a reliable stream the document is written as the format renders it. -/
theorem writeDocument_of_reliable {output : Output ω} (h : output.sink.Reliable) (format : Format)
    (entries : List Entry) :
    ∃ w, writeDocument format output entries = (.ok (), w) ∧
      w.output.written = output.written ++ format.render entries := by
  obtain ⟨w₁, hcreate, hformat, hcount, hopen, hsink, hprolog⟩ := create_of_reliable h format
  obtain ⟨w₂, hall, hformat₂, hopen₂, hsink₂, hentries⟩ :=
    printAll_of_reliable (hsink ▸ h) hopen entries
  obtain ⟨w₃, hclose, hepilogue⟩ := close_of_reliable (hsink₂ ▸ hsink ▸ h) hopen₂
  refine ⟨w₃, ?_, ?_⟩
  · simp only [writeDocument, hcreate, hall, hclose]
  · rw [hepilogue, hentries, hprolog, hformat₂, hformat, hcount, Format.render]
    simp only [List.append_assoc]

end Writer

end DirectoryExchange

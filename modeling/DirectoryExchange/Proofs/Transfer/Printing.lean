import DirectoryExchange.Proofs.Writer
import DirectoryExchange.Transfer.Dump

/-!
# The steps of a dump

Behind the prolog a dump prints the entries found one after the other, each in one write, and halts
behind the last one, when it is cancelled, or when a write fails (`Prints`).  Then it closes the
writer, whatever happened: the epilogue is written, and the output is flushed if that went well
(`Closes`).  Neither leaves it a choice, and the report of a dump is read off these two (`dump_eq`).
-/

namespace DirectoryExchange.Transfer

variable {σ ω : Type}

/-! ### The answer of the directory -/

/-- The entries that a dump has to write. -/
def entriesFound : Except OperationError SearchResult → List Entry
  | .ok found => if found.code.isSuccess then found.entries else []
  | .error _ => []

/-- The failure that the answer is, if it is one. -/
def searchFailure? : Except OperationError SearchResult → Option Failure
  | .ok found =>
    if found.code.isSuccess then none else some (.directory ⟨found.code, found.message⟩)
  | .error e => some e.toFailure

/-- What is told of the answer. -/
def searchEvents : Except OperationError SearchResult → List LogEvent
  | .ok found => if found.code.isSuccess then [] else [searchRefused found.message]
  | .error _ => [searchFailed]

/-! ### Printing and closing -/

/-- Why no more entries are printed. -/
inductive Halt where
  /-- All of them are written. -/
  | finished
  /-- The dump was cancelled before it came to another. -/
  | cancelled
  /-- The output did not take the entry. -/
  | refused (entry : Entry) (error : StreamError)

namespace Halt

/-- The last calls before the writer is closed. -/
def calls : Halt → List DumpCall
  | finished => []
  | cancelled => []
  | refused entry _ => [.print entry]

/-- What is told of the halt. -/
def events : Halt → List LogEvent
  | finished => []
  | cancelled => [.warn "dump cancelled"]
  | refused _ _ => [writeFailed]

/-- The failure that the halt is, if it is one. -/
def failure? : Halt → Option Failure
  | finished => none
  | cancelled => none
  | refused _ error => some (.stream error)

/-- Whether every entry was written. -/
def isFinished : Halt → Bool
  | finished => true
  | _ => false

end Halt

section Rules

variable (options : DumpOptions) (format : Format)

/-- Entries are printed into an output behind `n` others: those that are written, the halt, and the
output as it is then.  It is looked whether the dump is cancelled before each entry. -/
inductive Prints : Output ω → Nat → List Entry → List Entry → Halt → Output ω → Prop
  /-- There are no more. -/
  | finished {o : Output ω} {n : Nat} : Prints o n [] [] .finished o
  /-- The dump is cancelled. -/
  | cancelled {o : Output ω} {n : Nat} {entry : Entry} {rest : List Entry}
      (hcancelled : options.cancelled o.writes = true) :
      Prints o n (entry :: rest) [] .cancelled o
  /-- The write of the next entry fails. -/
  | refused {o o' : Output ω} {n : Nat} {entry : Entry} {rest : List Entry} {error : StreamError}
      (hnext : options.cancelled o.writes = false)
      (hwrite : o.write (format.renderNext n entry) = (.error error, o')) :
      Prints o n (entry :: rest) [] (.refused entry error) o'
  /-- The next entry is written, and it goes on behind it. -/
  | printed {o o' last : Output ω} {n : Nat} {entry : Entry} {rest written : List Entry}
      {halt : Halt} (hnext : options.cancelled o.writes = false)
      (hwrite : o.write (format.renderNext n entry) = (.ok (), o'))
      (hrest : Prints o' (n + 1) rest written halt last) :
      Prints o n (entry :: rest) (entry :: written) halt last

/-- A writer is closed: whether the document is whole, what the closing answers, and the output
behind it. -/
inductive Closes (o : Output ω) : Bool → Except StreamError Unit → Output ω → Prop
  /-- The write of the epilogue fails, and nothing else is done. -/
  | cutOff {o' : Output ω} {error : StreamError}
      (hwrite : Writer.writeOptional o format.epilogue? = (.error error, o')) :
      Closes o false (.error error) o'
  /-- The epilogue is written, and the answer is that of the flush. -/
  | whole {o' o'' : Output ω} {result : Except StreamError Unit}
      (hwrite : Writer.writeOptional o format.epilogue? = (.ok (), o'))
      (hflush : o'.flush = (result, o'')) : Closes o true result o''

end Rules

section Printing

variable {options : DumpOptions} {format : Format} {o last last' : Output ω} {n : Nat}
  {entries written written' : List Entry} {halt halt' : Halt}

/-- The rules of printing leave no choice. -/
theorem Prints.unique (h : Prints options format o n entries written halt last)
    (h' : Prints options format o n entries written' halt' last') :
    written' = written ∧ halt' = halt ∧ last' = last := by
  induction h generalizing written' with
  | finished =>
    cases h'
    exact ⟨rfl, rfl, rfl⟩
  | cancelled hcancelled => cases h' <;> simp_all
  | refused hnext hwrite => cases h' <;> simp_all
  | printed hnext hwrite _ ih =>
    cases h' with
    | cancelled hcancelled => simp_all
    | refused _ hwrite' => simp_all
    | printed _ hwrite' hrest' =>
      obtain rfl : _ = _ := (Prod.mk.inj (hwrite.symm.trans hwrite')).2
      obtain ⟨rfl, rfl, rfl⟩ := ih hrest'
      exact ⟨rfl, rfl, rfl⟩

/-- Entries are printed up to some halt. -/
theorem exists_prints (options : DumpOptions) (format : Format) (o : Output ω) (n : Nat)
    (entries : List Entry) :
    ∃ written halt last, Prints options format o n entries written halt last := by
  induction entries generalizing o n with
  | nil => exact ⟨[], _, _, .finished⟩
  | cons entry rest ih =>
    cases hnext : options.cancelled o.writes with
    | true => exact ⟨[], _, _, .cancelled hnext⟩
    | false =>
      rcases hwrite : o.write (format.renderNext n entry) with ⟨e | ⟨⟩, o'⟩
      · exact ⟨[], _, _, .refused hnext hwrite⟩
      · obtain ⟨written, halt, last, hrest⟩ := ih o' (n + 1)
        exact ⟨entry :: written, halt, last, .printed hnext hwrite hrest⟩

/-- Entries are printed in order, and none is left out in between. -/
lemma Prints.isPrefix (h : Prints options format o n entries written halt last) :
    written <+: entries := by
  induction h with
  | finished => exact List.nil_prefix
  | cancelled _ => exact List.nil_prefix
  | refused _ _ => exact List.nil_prefix
  | printed _ _ _ ih => exact List.cons_prefix_cons.2 ⟨rfl, ih⟩

/-- A write that fails leaves what had been taken, and any other puts its octets behind it. -/
lemma written_write {octets : Bytes} {result : Except StreamError Unit} {o' : Output ω}
    (h : o.write octets = (result, o')) :
    o'.written = o.written ++ if result.isOk then octets else [] := by
  rw [Output.write] at h
  split at h <;> obtain ⟨rfl, rfl⟩ := Prod.mk.inj h <;> simp [Except.isOk, Except.toBool]

/-- Octets are in the output if their write succeeded. -/
lemma written_writeOptional {octets : Option Bytes} {result : Except StreamError Unit}
    {o' : Output ω} (h : Writer.writeOptional o octets = (result, o')) :
    o'.written = o.written ++ if result.isOk then octets.getD [] else [] := by
  cases octets with
  | none =>
    obtain ⟨rfl, rfl⟩ := Prod.mk.inj h
    simp
  | some octets => exact written_write h

/-- Printing leaves the entries written behind what had been taken, and nothing of the others. -/
lemma Prints.written_eq (h : Prints options format o n entries written halt last) :
    last.written = o.written ++ format.renderFrom n written := by
  induction h with
  | finished => simp [Format.renderFrom]
  | cancelled _ => simp [Format.renderFrom]
  | refused _ hwrite =>
    simpa [Format.renderFrom, Except.isOk, Except.toBool] using written_write hwrite
  | printed _ hwrite _ ih =>
    rw [ih, written_write hwrite, Format.renderFrom, List.append_assoc]
    rfl

/-- The run of a dump that has written these entries and come to this halt. -/
def printRun (writer : Writer ω) (written : List Entry) (halt : Halt) : DumpRun ω where
  writer := writer
  calls := written.map .print ++ halt.calls
  events := halt.events
  summary := ⟨written.length, halt.isFinished⟩
  failure := halt.failure?

/-- The loop does what the rules say. -/
lemma Prints.dumpEntries_eq (h : Prints options format o n entries written halt last) :
    dumpEntries options ⟨format, o, n, false⟩ entries =
      printRun ⟨format, last, n + written.length, false⟩ written halt := by
  induction h with
  | finished => rfl
  | cancelled hcancelled =>
    rw [dumpEntries, if_pos hcancelled]
    rfl
  | refused hnext hwrite =>
    simp only [dumpEntries, hnext, Writer.print, hwrite, Bool.false_eq_true, if_false]
    rfl
  | @printed _ _ _ n _ _ written _ hnext hwrite _ ih =>
    have hcount : n + 1 + written.length = n + (written.length + 1) := by omega
    simp only [dumpEntries, hnext, Writer.print, hwrite, Bool.false_eq_true, if_false, ih]
    simp [printRun, DumpRun.after, DumpRun.countWritten, hcount]

end Printing

section Closing

variable {format : Format} {o last last' : Output ω} {whole whole' : Bool}
  {closing closing' : Except StreamError Unit}

/-- The rules of closing leave no choice. -/
theorem Closes.unique (h : Closes format o whole closing last)
    (h' : Closes format o whole' closing' last') :
    whole' = whole ∧ closing' = closing ∧ last' = last := by
  cases h <;> cases h' <;> simp_all

/-- A writer is closed in some way. -/
theorem exists_closes (format : Format) (o : Output ω) :
    ∃ whole closing last, Closes format o whole closing last := by
  rcases hwrite : Writer.writeOptional o format.epilogue? with ⟨e | ⟨⟩, o'⟩
  · exact ⟨_, _, _, .cutOff hwrite⟩
  · exact ⟨_, _, _, .whole hwrite rfl⟩

/-- The epilogue is in the output if it was written as a whole. -/
lemma Closes.written_eq (h : Closes format o whole closing last) :
    last.written = o.written ++ if whole then format.epilogue?.getD [] else [] := by
  cases h with
  | cutOff hwrite => exact written_writeOptional hwrite
  | whole hwrite hflush =>
    rw [Output.flush] at hflush
    obtain ⟨-, rfl⟩ := Prod.mk.inj hflush
    exact written_writeOptional hwrite

/-- To close a writer is to close its output, and no more is written to it. -/
lemma Closes.close_eq (h : Closes format o whole closing last) (n : Nat) :
    (⟨format, o, n, false⟩ : Writer ω).close = (closing, ⟨format, last, n, true⟩) := by
  cases h with
  | cutOff hwrite => simp only [Writer.close, hwrite, Bool.false_eq_true, if_false]
  | whole hwrite hflush => simp only [Writer.close, hwrite, hflush, Bool.false_eq_true, if_false]

/-- What has no epilogue is whole. -/
lemma Closes.whole_of_ldif (h : Closes .ldif o whole closing last) : whole = true := by
  cases h with
  | cutOff hwrite => cases hwrite
  | whole _ _ => rfl

end Closing

/-! ### What is reported of a dump -/

/-- The failure that the closing is, if it is one. -/
def closingFailure? : Except StreamError Unit → Option Failure
  | .ok _ => none
  | .error e => some (.stream e)

/-- The report of a dump that has written these entries, come to this halt and been closed so.  The
first failure is the one that counts, and only a dump without any that was not cancelled is
complete. -/
def dumpReport (mode : Mode) (request : SearchRequest)
    (answer : Except OperationError SearchResult) (state : σ) (written : List Entry) (halt : Halt)
    (closing : Except StreamError Unit) (last : Output ω) : DumpReport σ ω where
  result := conclude mode
    ((searchFailure? answer).or (halt.failure?.or (closingFailure? closing)))
    ⟨written.length, (searchFailure? answer).isNone && halt.isFinished && closing.isOk⟩
  state := state
  output := last
  calls := .create :: .search request :: (written.map .print ++ halt.calls ++ [.close])
  events := searchEvents answer ++ halt.events ++
    (if closing.isOk then [] else [writeFailed]) ++ [.info "dump finished"]

/-- The octets of a dump that has written these entries, whole or cut off before the epilogue. -/
def dumpDocument (format : Format) (written : List Entry) (whole : Bool) : Bytes :=
  format.prolog?.getD [] ++ format.renderFrom 0 written ++
    if whole then format.epilogue?.getD [] else []

section Report

variable {options : DumpOptions} {format : Format} {answer : Except OperationError SearchResult}
  {o middle last : Output ω} {written : List Entry} {halt : Halt} {whole : Bool}
  {closing : Except StreamError Unit}

/-- If the directory does not answer with entries, there are none to print. -/
lemma dumpFound_eq (hprints : Prints options format o 0 (entriesFound answer) written halt middle) :
    dumpFound options ⟨format, o, 0, false⟩ answer =
      { printRun ⟨format, middle, written.length, false⟩ written halt with
        events := searchEvents answer ++ halt.events
        summary := ⟨written.length, (searchFailure? answer).isNone && halt.isFinished⟩
        failure := (searchFailure? answer).or halt.failure? } := by
  have hentries := hprints.dumpEntries_eq
  rw [Nat.zero_add] at hentries
  cases answer with
  | error e =>
    cases hprints
    rfl
  | ok found =>
    cases hsuccess : found.code.isSuccess with
    | true =>
      simp only [entriesFound, hsuccess, if_true] at hentries
      simp only [dumpFound, searchEvents, searchFailure?, hsuccess, if_true, hentries]
      rfl
    | false =>
      simp only [entriesFound, hsuccess, Bool.false_eq_true, if_false] at hprints
      simp only [dumpFound, searchEvents, searchFailure?, hsuccess, Bool.false_eq_true, if_false]
      cases hprints
      rfl

/-- A dump whose prolog was written is reported by what it printed and how it was closed. -/
lemma dump_eq {connection : Connection σ} {state next : σ} {base filter : String}
    {output : Output ω}
    (hprolog : Writer.writeOptional output format.prolog? = (.ok (), o))
    (hsearch : connection.search state ⟨base, filter, .subtree⟩ = (answer, next))
    (hprints : Prints options format o 0 (entriesFound answer) written halt middle)
    (hcloses : Closes format middle whole closing last) :
    dump connection state format base filter output options =
      dumpReport options.mode ⟨base, filter, .subtree⟩ answer next written halt closing last := by
  simp only [dump, Writer.create, hprolog, hsearch, dumpFound_eq hprints, DumpRun.close, printRun,
    hcloses.close_eq]
  cases closing with
  | ok u => simp [dumpReport, closingFailure?, Except.isOk, Except.toBool]
  | error e => simp [dumpReport, closingFailure?, Except.isOk, Except.toBool]

end Report

end DirectoryExchange.Transfer

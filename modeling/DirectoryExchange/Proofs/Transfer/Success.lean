import DirectoryExchange.Proofs.Transfer.Printing
import DirectoryExchange.Transfer.Load

/-!
# Transfers without failures

On a stream that takes everything a dump leaves the document of the entries found, and fails only if
the search does (`dump_of_answer`).  Where nothing is rejected, a load applies every record of its
source and is complete (`load_of_takes`).  Neither is cancelled, and the mode does not matter.
-/

namespace DirectoryExchange.Transfer

variable {σ ω : Type}

/-! ### Dumping -/

section Dumping

variable {o : Output ω}

/-- All entries are printed. -/
lemma exists_prints_of_reliable {options : DumpOptions}
    (hoptions : ∀ n, options.cancelled n = false) (format : Format) (h : o.sink.Reliable) (n : Nat)
    (entries : List Entry) :
    ∃ last, Prints options format o n entries entries .finished last ∧ last.sink = o.sink := by
  induction entries generalizing o n with
  | nil => exact ⟨o, .finished, rfl⟩
  | cons entry rest ih =>
    obtain ⟨o', hwrite, hsink, -⟩ := Output.write_of_reliable h (format.renderNext n entry)
    obtain ⟨last, hrest, hlast⟩ := ih (hsink ▸ h) (n + 1)
    exact ⟨last, .printed (hoptions _) hwrite hrest, hlast.trans hsink⟩

/-- A reliable output takes the epilogue and is flushed. -/
lemma exists_closes_of_reliable (format : Format) (h : o.sink.Reliable) :
    ∃ last, Closes format o true (.ok ()) last := by
  obtain ⟨o', hwrite, hsink, -⟩ := Writer.writeOptional_of_reliable h format.epilogue?
  obtain ⟨last, hflush, -, -⟩ := Output.flush_of_reliable (hsink ▸ h : o'.sink.Reliable)
  exact ⟨last, .whole hwrite hflush⟩

/-- A dump to a stream that takes everything leaves the document of the entries found, and its
failure is that of the search. -/
theorem dump_of_answer {connection : Connection σ} {state next : σ} {base filter : String}
    {answer : Except OperationError SearchResult}
    (hsearch : connection.search state ⟨base, filter, .subtree⟩ = (answer, next))
    (houtput : o.sink.Reliable) (format : Format) {options : DumpOptions}
    (hoptions : ∀ n, options.cancelled n = false) :
    let report := dump connection state format base filter o options
    report.result = conclude options.mode (searchFailure? answer)
        ⟨(entriesFound answer).length, (searchFailure? answer).isNone⟩ ∧
      report.output.written = o.written ++ format.render (entriesFound answer) := by
  obtain ⟨o₁, hprolog, hsink₁, -⟩ := Writer.writeOptional_of_reliable houtput format.prolog?
  obtain ⟨o₂, hprints, hsink₂⟩ :=
    exists_prints_of_reliable hoptions format (hsink₁ ▸ houtput) 0 (entriesFound answer)
  obtain ⟨o₃, hcloses⟩ := exists_closes_of_reliable format (hsink₂ ▸ hsink₁ ▸ houtput)
  intro report
  have hreport : report = dumpReport _ _ _ _ _ _ _ _ := dump_eq hprolog hsearch hprints hcloses
  rw [hreport]
  constructor
  · simp [dumpReport, Halt.failure?, Halt.isFinished, closingFailure?, Except.isOk, Except.toBool]
  · change o₃.written = _
    rw [hcloses.written_eq, hprints.written_eq, written_writeOptional hprolog, Format.render]
    simp [Except.isOk, Except.toBool]

/-- A dump of what is found to a stream that takes everything. -/
theorem dump_of_reliable {connection : Connection σ} {state : σ} {base filter : String}
    {entries : List Entry}
    (hsearch : connection.search state ⟨base, filter, .subtree⟩ = (.ok (.found entries), state))
    (houtput : o.sink.Reliable) (format : Format) {options : DumpOptions}
    (hoptions : ∀ n, options.cancelled n = false) :
    (dump connection state format base filter o options).result = .ok ⟨entries.length, true⟩ ∧
      (dump connection state format base filter o options).output.written =
        o.written ++ format.render entries := by
  have hdump := dump_of_answer hsearch houtput format hoptions
  have hfailure : searchFailure? (.ok (.found entries)) = none := rfl
  have hfound : entriesFound (.ok (.found entries)) = entries := rfl
  simpa only [hfailure, hfound, conclude_none, Option.isNone_none] using hdump

end Dumping

/-! ### Loading -/

/-- The records are applied one after the other, and none is rejected. -/
inductive Takes (connection : Connection σ) : σ → List ChangeRecord → σ → Prop
  /-- There are none. -/
  | nil (state : σ) : Takes connection state [] state
  /-- One, and then others. -/
  | cons {state next last : σ} {record : ChangeRecord} {records : List ChangeRecord}
      (hfirst : connection.apply state record = (.ok (), next))
      (hrest : Takes connection next records last) :
      Takes connection state (record :: records) last

/-- A load of records that are all accepted gets over all of them. -/
lemma loadItems_of_takes {connection : Connection σ} {options : LoadOptions}
    (hoptions : ∀ progress, options.cancelled progress = false) {state last : σ}
    {records : List ChangeRecord} (htakes : Takes connection state records last)
    {items : List Item} (hitems : items.map (·.outcome) = records.map .ok)
    (endEvents : List LogEvent) (progress : Progress) :
    (loadItems connection options endEvents progress state items).state = last ∧
      (loadItems connection options endEvents progress state items).summary =
        ⟨records.length, 0, true⟩ ∧
      (loadItems connection options endEvents progress state items).failure = none := by
  induction htakes generalizing items progress with
  | nil state =>
    obtain rfl := List.map_eq_nil_iff.1 hitems
    rw [loadItems, hoptions, if_neg Bool.false_ne_true]
    exact ⟨rfl, rfl, rfl⟩
  | cons hfirst _ ih =>
    obtain ⟨item, items, rfl, houtcome, hitems⟩ := List.map_eq_cons_iff.1 hitems
    have hrest := ih hitems
      { asked := progress.asked + 1, octets := item.position, applies := progress.applies + 1 }
    obtain ⟨hstate, hsummary, hfailure⟩ := hrest
    simp only [loadItems, hoptions, houtcome, Bool.false_eq_true, if_false, hfirst]
    refine ⟨hstate, ?_, hfailure⟩
    simp only [LoadRun.after, LoadRun.countApplied, hsummary, List.length_cons]

/-- A load of records none of which is rejected. -/
theorem load_of_takes {connection : Connection σ} {state last : σ} {records : List ChangeRecord}
    (htakes : Takes connection state records last) {source : LoadSource} {feed : Feed}
    (hopened : source.opened = .ok feed) (hitems : feed.items.map (·.outcome) = records.map .ok)
    {options : LoadOptions} (hoptions : ∀ progress, options.cancelled progress = false) :
    (load connection state source options).result = .ok ⟨records.length, 0, true⟩ ∧
      (load connection state source options).state = last := by
  obtain ⟨hstate, hsummary, hfailure⟩ :=
    loadItems_of_takes hoptions htakes hitems feed.endEvents { octets := feed.startPosition }
  simp only [load, hopened, hstate, hsummary, hfailure, conclude_none, true_and]

end DirectoryExchange.Transfer

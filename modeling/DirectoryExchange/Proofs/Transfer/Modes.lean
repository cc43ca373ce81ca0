import DirectoryExchange.Proofs.Transfer.Course
import DirectoryExchange.Proofs.Transfer.Dumping

/-!
# Tolerant and strict transfers

Neither the course of a load nor the printing and closing of a dump looks at the mode, so a tolerant
and a strict transfer do the same, and tell the same.  They differ in the answer alone.  A transfer
that was not cancelled is complete exactly if nothing failed (`Stop.isEnd_eq`,
`Halt.isFinished_eq`), and so a tolerant answer that is incomplete stands for a strict one that is a
failure (`transfer_modes`).
-/

namespace DirectoryExchange.Transfer

variable {σ ω : Type}

/-! ### Answers -/

/-- How the tolerant and the strict answer of a transfer go together, where `complete` is read off
the account: the tolerant one is an account, the strict one is the same account or a failure of a
transfer that is not complete, and it is a failure if the transfer is not complete although it was
not cancelled. -/
def Correspond {α : Type} (complete : α → Bool) (cancelled : Prop)
    (tolerant strict : Except Failure α) : Prop :=
  ∃ summary, tolerant = .ok summary ∧
    (strict = .ok summary ∨ (∃ failure, strict = .error failure) ∧ complete summary = false) ∧
    (complete summary = false → ¬ cancelled → ∃ failure, strict = .error failure)

/-- The answers go together if the account is complete exactly where nothing failed and nothing was
cancelled. -/
lemma correspond_conclude {α : Type} {complete : α → Bool} {cancelled : Prop}
    {failure : Option Failure} {summary : α} (stopped : Bool)
    (hcomplete : complete summary = (failure.isNone && !stopped))
    (hstopped : stopped = true → cancelled) :
    Correspond complete cancelled (conclude .tolerant failure summary)
      (conclude .strict failure summary) := by
  refine ⟨summary, conclude_tolerant failure summary, ?_, ?_⟩
  · cases failure with
    | none => exact .inl rfl
    | some failure => exact .inr ⟨⟨failure, rfl⟩, by simpa using hcomplete⟩
  · intro hincomplete hnot
    cases failure with
    | none =>
      have hrunning : stopped = false := Bool.eq_false_iff.2 (mt hstopped hnot)
      simp [hincomplete, hrunning] at hcomplete
    | some failure => exact ⟨failure, rfl⟩

/-! ### Loading -/

section Loading

variable {connection : Connection σ} {options options' : LoadOptions} {p p' : Progress}
  {s s' last : σ} {turn : Turn} {stop : Stop} {items : List Item} {turns : List Turn}

/-- A turn does not look at the mode. -/
lemma Passes.congr (h : Passes connection options p s turn p' s')
    (hcancelled : options'.cancelled = options.cancelled)
    (hignore : options'.ignoreErrors = options.ignoreErrors) :
    Passes connection options' p s turn p' s' := by
  cases h <;> constructor <;> simpa only [hcancelled, hignore]

/-- A stop does not look at the mode. -/
lemma Stops.congr (h : Stops connection options p s items stop last)
    (hcancelled : options'.cancelled = options.cancelled)
    (hignore : options'.ignoreErrors = options.ignoreErrors) :
    Stops connection options' p s items stop last := by
  cases h <;> constructor <;> simpa only [hcancelled, hignore]

/-- The rules of a load look at when it is cancelled and whether errors are ignored, and at no other
option. -/
theorem Course.congr (h : Course connection options p s items turns stop last)
    (hcancelled : options'.cancelled = options.cancelled)
    (hignore : options'.ignoreErrors = options.ignoreErrors) :
    Course connection options' p s items turns stop last := by
  induction h with
  | stop hstop => exact .stop (hstop.congr hcancelled hignore)
  | turn hturn _ ih => exact .turn (hturn.congr hcancelled hignore) ih

/-- Whether the load stopped because it was cancelled. -/
def Stop.isCancelled : Stop → Bool
  | cancelledBeforeNext => true
  | cancelledBeforeApply _ _ => true
  | _ => false

/-- A load has read its source to the end unless it failed or was cancelled. -/
lemma Stop.isEnd_eq (stop : Stop) :
    stop.isEnd = (stop.failure?.isNone && !stop.isCancelled) := by
  cases stop <;> rfl

/-- A load is cancelled if its course stops for this reason. -/
def LoadCancelled (connection : Connection σ) (state : σ) (source : LoadSource)
    (options : LoadOptions) : Prop :=
  ∃ feed turns stop last, source.opened = .ok feed ∧
    Course connection options { octets := feed.startPosition } state feed.items turns stop last ∧
    stop.isCancelled = true

end Loading

/-! ### Dumping -/

section Dumping

variable {options options' : DumpOptions} {format : Format} {o last : Output ω} {n : Nat}
  {entries written : List Entry} {halt : Halt}

/-- The rules of printing look at when the dump is cancelled, and at no other option. -/
theorem Prints.congr (h : Prints options format o n entries written halt last)
    (hcancelled : options'.cancelled = options.cancelled) :
    Prints options' format o n entries written halt last := by
  induction h with
  | finished => exact .finished
  | cancelled h => exact .cancelled (hcancelled ▸ h)
  | refused hnext hwrite => exact .refused (hcancelled ▸ hnext) hwrite
  | printed hnext hwrite _ ih => exact .printed (hcancelled ▸ hnext) hwrite ih

/-- Whether the dump halted because it was cancelled. -/
def Halt.isCancelled : Halt → Bool
  | cancelled => true
  | _ => false

/-- A dump has written every entry unless it failed or was cancelled. -/
lemma Halt.isFinished_eq (halt : Halt) :
    halt.isFinished = (halt.failure?.isNone && !halt.isCancelled) := by
  cases halt <;> rfl

/-- A dump is cancelled if its printing halts for this reason. -/
def DumpCancelled (connection : Connection σ) (state : σ) (format : Format)
    (base filter : String) (output : Output ω) (options : DumpOptions) : Prop :=
  ∃ o written halt last, Writer.writeOptional output format.prolog? = (.ok (), o) ∧
    Prints options format o 0 (entriesFound (connection.search state ⟨base, filter, .subtree⟩).1)
      written halt last ∧
    halt.isCancelled = true

/-- A dump that wrote its prolog is complete unless it failed or was cancelled. -/
lemma complete_dump (answer : Except OperationError SearchResult) (halt : Halt)
    (closing : Except StreamError Unit) :
    ((searchFailure? answer).isNone && halt.isFinished && closing.isOk) =
      (((searchFailure? answer).or (halt.failure?.or (closingFailure? closing))).isNone &&
        !halt.isCancelled) := by
  rw [halt.isFinished_eq]
  cases searchFailure? answer <;> cases halt.failure? <;> cases closing <;>
    simp [closingFailure?, Except.isOk, Except.toBool]

end Dumping

/-- Of any load, and of any dump, a tolerant and a strict run make the same calls, leave the same
state of the directory and the same output, and tell the same; only the answers differ, and they go
together. -/
theorem transfer_modes (connection : Connection σ) (state : σ) :
    (∀ (source : LoadSource) (options : LoadOptions),
      let cancelled (mode : Mode) := LoadCancelled connection state source { options with mode }
      let report (mode : Mode) := load connection state source { options with mode }
      (report .strict).calls = (report .tolerant).calls ∧
      (report .strict).state = (report .tolerant).state ∧
      (report .strict).events = (report .tolerant).events ∧
      Correspond LoadSummary.complete (cancelled .tolerant ∨ cancelled .strict)
        (report .tolerant).result (report .strict).result) ∧
    (∀ (format : Format) (base filter : String) (output : Output ω) (options : DumpOptions),
      let cancelled (mode : Mode) :=
        DumpCancelled connection state format base filter output { options with mode }
      let report (mode : Mode) :=
        dump connection state format base filter output { options with mode }
      (report .strict).calls = (report .tolerant).calls ∧
      (report .strict).state = (report .tolerant).state ∧
      (report .strict).output = (report .tolerant).output ∧
      (report .strict).events = (report .tolerant).events ∧
      Correspond DumpSummary.complete (cancelled .tolerant ∨ cancelled .strict)
        (report .tolerant).result (report .strict).result) := by
  constructor
  · intro source options cancelled report
    cases hopened : source.opened with
    | error e =>
      have hreport : ∀ mode, report mode =
          ⟨conclude mode (some e.toFailure) {}, state, [.openReader],
            [.error "Could not open the reader"]⟩ := by
        intro mode
        simp only [report, load, hopened]
      simp only [hreport, true_and]
      exact correspond_conclude false rfl fun hstopped => absurd hstopped Bool.false_ne_true
    | ok feed =>
      -- one course serves both modes, since no step of it looks at the mode
      obtain ⟨turns, stop, last, hcourse⟩ :=
        exists_course connection options { octets := feed.startPosition } state feed.items
      have hcourse' : ∀ mode, Course connection { options with mode }
          { octets := feed.startPosition } state feed.items turns stop last :=
        fun mode => hcourse.congr rfl rfl
      have hreport : ∀ mode, report mode =
          courseReport mode source.closing feed.endEvents turns stop last :=
        fun mode => (hcourse' mode).load_eq hopened
      simp only [hreport]
      refine ⟨rfl, rfl, rfl,
        correspond_conclude stop.isCancelled stop.isEnd_eq fun hstop => .inl ?_⟩
      exact ⟨feed, turns, stop, last, hopened, hcourse' .tolerant, hstop⟩
  · intro format base filter output options cancelled report
    rcases hprolog : Writer.writeOptional output format.prolog? with ⟨e | ⟨⟩, o⟩
    · have hreport : ∀ mode, report mode =
          ⟨conclude mode (some (.stream e)) {}, state, o, [.create],
            [.error "Could not create and initialise the writer"]⟩ := by
        intro mode
        simp only [report, dump, Writer.create, hprolog]
      simp only [hreport, true_and]
      exact correspond_conclude false rfl fun hstopped => absurd hstopped Bool.false_ne_true
    · rcases hsearch : connection.search state ⟨base, filter, .subtree⟩ with ⟨answer, next⟩
      -- what is printed and how it is closed is the same in both modes too
      obtain ⟨written, halt, middle, hprints⟩ :=
        exists_prints options format o 0 (entriesFound answer)
      obtain ⟨whole, closing, last, hcloses⟩ := exists_closes format middle
      have hprints' : ∀ mode, Prints { options with mode } format o 0 (entriesFound answer) written
          halt middle :=
        fun mode => hprints.congr rfl
      have hreport : ∀ mode, report mode =
          dumpReport mode ⟨base, filter, .subtree⟩ answer next written halt closing last :=
        fun mode => dump_eq hprolog hsearch (hprints' mode) hcloses
      simp only [hreport]
      refine ⟨rfl, rfl, rfl, rfl, correspond_conclude halt.isCancelled
        (complete_dump answer halt closing) fun hhalt => .inl ?_⟩
      exact ⟨o, written, halt, middle, hprolog, hsearch ▸ hprints' .tolerant, hhalt⟩

end DirectoryExchange.Transfer

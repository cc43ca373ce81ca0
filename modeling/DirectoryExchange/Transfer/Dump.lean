import DirectoryExchange.Connection
import DirectoryExchange.Log
import DirectoryExchange.Transfer.Outcome
import DirectoryExchange.Writer

/-!
# Dumping

A dump searches a directory and writes the entries that were found, in the order of the directory.
It stops when it is cancelled or a write fails.  The writer is closed at the end, whatever
happened, so that what was written is a whole document.
-/

namespace DirectoryExchange.Transfer

/-- How a dump is to be carried out. -/
structure DumpOptions where
  /-- What the answer is if the dump fails. -/
  mode : Mode := .tolerant
  /-- Whether the dump is cancelled once the output has taken so many writes. -/
  cancelled : Nat → Bool := fun _ => false

/-- What a dump does, step by step. -/
inductive DumpCall where
  /-- The writer is created. -/
  | create
  /-- The directory is searched. -/
  | search (request : SearchRequest)
  /-- The writer is asked to write an entry. -/
  | print (entry : Entry)
  /-- The writer is closed. -/
  | close
  deriving DecidableEq, Repr

/-- The account of a dump. -/
structure DumpSummary where
  /-- The number of entries written. -/
  written : Nat := 0
  /-- Whether every entry found was written, and the output taken to its end. -/
  complete : Bool := false
  deriving DecidableEq, Repr

/-- What the loop of a dump has done. -/
structure DumpRun (ω : Type) where
  /-- The writer at the end. -/
  writer : Writer ω
  /-- The calls in order. -/
  calls : List DumpCall := []
  /-- What was told. -/
  events : List LogEvent := []
  /-- The account. -/
  summary : DumpSummary := {}
  /-- What stopped the dump, if it failed. -/
  failure : Option Failure := none

/-- The run that begins with these calls and events. -/
def DumpRun.after {ω : Type} (calls : List DumpCall) (events : List LogEvent) (run : DumpRun ω) :
    DumpRun ω :=
  { run with calls := calls ++ run.calls, events := events ++ run.events }

/-- The run with one more entry written. -/
def DumpRun.countWritten {ω : Type} (run : DumpRun ω) : DumpRun ω :=
  { run with summary := { run.summary with written := run.summary.written + 1 } }

/-- What is told of a write that failed. -/
def writeFailed : LogEvent :=
  .error "I/O error writing directory entries to the output stream"

/-- The loop of a dump over the entries still to be written. -/
def dumpEntries {ω : Type} (options : DumpOptions) (writer : Writer ω) :
    List Entry → DumpRun ω
  | [] => { writer, summary := { complete := true } }
  | entry :: rest =>
    if options.cancelled writer.output.writes then
      { writer, events := [.warn "dump cancelled"] }
    else
      match writer.print entry with
      | (.ok _, writer) =>
        (dumpEntries options writer rest).countWritten.after [.print entry] []
      | (.error e, writer) =>
        { writer, calls := [.print entry], events := [writeFailed], failure := some (.stream e) }

/-- What is told of a search that the directory did not carry out: its own words, quoted. -/
def searchRefused (message : String) : LogEvent := .error (Quoted.quote message)

/-- What is told of a search that got no answer. -/
def searchFailed : LogEvent := .error "Error searching the LDAP directory server"

/-- What a dump does with the answer of the directory. -/
def dumpFound {ω : Type} (options : DumpOptions) (writer : Writer ω) :
    Except OperationError SearchResult → DumpRun ω
  | .ok found =>
    if found.code.isSuccess then dumpEntries options writer found.entries
    else
      { writer, events := [searchRefused found.message],
        failure := some (.directory ⟨found.code, found.message⟩) }
  | .error e =>
    { writer, events := [searchFailed], failure := some e.toFailure }

/-- Closes the writer of a run.  An output that fails here leaves the dump incomplete. -/
def DumpRun.close {ω : Type} (run : DumpRun ω) : DumpRun ω :=
  let calls := run.calls ++ [.close]
  match run.writer.close with
  | (.ok _, writer) => { run with writer, calls }
  | (.error e, writer) =>
    { writer, calls, events := run.events ++ [writeFailed],
      summary := { run.summary with complete := false },
      failure := run.failure.or (some (.stream e)) }

/-- What a dump has done, and its answer. -/
structure DumpReport (σ ω : Type) where
  /-- The answer. -/
  result : Except Failure DumpSummary
  /-- The state of the connection at the end. -/
  state : σ
  /-- The output at the end. -/
  output : Output ω
  /-- The calls in order. -/
  calls : List DumpCall
  /-- What was told. -/
  events : List LogEvent

/-- Writes the entries at or below the base that satisfy the filter. -/
def dump {σ ω : Type} (connection : Connection σ) (state : σ) (format : Format)
    (base filter : String) (output : Output ω) (options : DumpOptions) : DumpReport σ ω :=
  match Writer.create format output with
  | (.error e, writer) =>
    ⟨conclude options.mode (some (.stream e)) {}, state, writer.output, [.create],
      [.error "Could not create and initialise the writer"]⟩
  | (.ok _, writer) =>
    let request : SearchRequest := ⟨base, filter, .subtree⟩
    let (found, state) := connection.search state request
    let run := (dumpFound options writer found).close
    ⟨conclude options.mode run.failure run.summary, state, run.writer.output,
      .create :: .search request :: run.calls, run.events ++ [.info "dump finished"]⟩

end DirectoryExchange.Transfer

import DirectoryExchange.Connection
import DirectoryExchange.Feed
import DirectoryExchange.Transfer.Outcome

/-!
# Loading

A load takes change records from a reader and applies each to a directory before it asks for the
next one.  It stops at the end of the source, when it is cancelled, or at a failure; a record that
cannot be read, or that the directory rejects, is skipped if errors are to be ignored.  The reader
is closed at the end, whatever happened.
-/

namespace DirectoryExchange.Transfer

/-- How far a load has come. -/
structure Progress where
  /-- How often the reader was asked for a record. -/
  asked : Nat := 0
  /-- The number of octets taken from the source. -/
  octets : Nat := 0
  /-- How often the directory was asked to apply a record. -/
  applies : Nat := 0
  deriving DecidableEq, Repr

/-- How a load is to be carried out. -/
structure LoadOptions where
  /-- Whether to go on behind records that cannot be read or are rejected. -/
  ignoreErrors : Bool := false
  /-- What the answer is if the load fails. -/
  mode : Mode := .tolerant
  /-- Whether the load is cancelled once it has come so far. -/
  cancelled : Progress → Bool := fun _ => false

/-- A source that may have been opened. -/
structure LoadSource where
  /-- What the source gives, or why it cannot be opened. -/
  opened : Except ReadError Feed
  /-- How closing the reader fails, if it does. -/
  closing : Option StreamError := none

/-- What a load does, step by step. -/
inductive LoadCall where
  /-- The reader is opened. -/
  | openReader
  /-- The reader is asked for a record. -/
  | next
  /-- The directory is asked to apply a record. -/
  | apply (record : ChangeRecord)
  /-- The reader is closed. -/
  | close
  deriving DecidableEq, Repr

/-- The account of a load. -/
structure LoadSummary where
  /-- The number of records that the directory applied. -/
  applied : Nat := 0
  /-- The number of records skipped because of an error. -/
  skipped : Nat := 0
  /-- Whether the source was read to its end. -/
  complete : Bool := false
  deriving DecidableEq, Repr

/-- What the loop of a load has done. -/
structure LoadRun (σ : Type) where
  /-- The state of the connection at the end. -/
  state : σ
  /-- The calls in order. -/
  calls : List LoadCall := []
  /-- What was told. -/
  events : List LogEvent := []
  /-- The account. -/
  summary : LoadSummary := {}
  /-- What stopped the load, if it failed. -/
  failure : Option Failure := none

namespace LoadRun

variable {σ : Type}

/-- The run that begins with these calls and events. -/
def after (calls : List LoadCall) (events : List LogEvent) (run : LoadRun σ) : LoadRun σ :=
  { run with calls := calls ++ run.calls, events := events ++ run.events }

/-- The run with one more record applied. -/
def countApplied (run : LoadRun σ) : LoadRun σ :=
  { run with summary := { run.summary with applied := run.summary.applied + 1 } }

/-- The run with one more record skipped. -/
def countSkipped (run : LoadRun σ) : LoadRun σ :=
  { run with summary := { run.summary with skipped := run.summary.skipped + 1 } }

/-- The run that stops because it is cancelled. -/
def cancelled (state : σ) : LoadRun σ := { state, events := [.warn "load cancelled"] }

/-- The run that stops at a failure. -/
def failed (state : σ) (failure : Failure) : LoadRun σ := { state, failure := some failure }

/-- The run that has reached the end. -/
def completed (state : σ) : LoadRun σ := { state, summary := { complete := true } }

end LoadRun

/-- What is told of a record that cannot be read. -/
def readFailed : ReadError → LogEvent
  | .parse _ => .error "Error parsing directory entry read from the input stream"
  | .stream _ => .error "I/O error reading directory entry from input stream"

/-- What is told of a record that was not applied. -/
def applyFailed : LogEvent :=
  .error "Error loading directory entry into the LDAP directory server"

/-- Whether an error of the reader is passed over. -/
def LoadOptions.ignoresRead (options : LoadOptions) : ReadError → Bool
  | .parse e => options.ignoreErrors && e.mayContinue
  | .stream _ => false

/-- Whether an error of the directory is passed over. -/
def LoadOptions.ignoresApply (options : LoadOptions) : OperationError → Bool
  | .directory _ => options.ignoreErrors
  | .connection _ => false

/-- The loop of a load over the items still to come, with what is told on the way to the end. -/
def loadItems {σ : Type} (connection : Connection σ) (options : LoadOptions)
    (endEvents : List LogEvent) (progress : Progress) (state : σ) : List Item → LoadRun σ
  | [] =>
    if options.cancelled progress then .cancelled state
    else (LoadRun.completed state).after [.next] endEvents
  | item :: rest =>
    if options.cancelled progress then .cancelled state
    else
      let progress : Progress :=
        { progress with asked := progress.asked + 1, octets := item.position }
      match item.outcome with
      | .error e =>
        let run :=
          if options.ignoresRead e then
            (loadItems connection options endEvents progress state rest).countSkipped
          else .failed state e.toFailure
        run.after [.next] (item.events ++ [readFailed e])
      | .ok record =>
        if options.cancelled progress then
          (LoadRun.cancelled state).after [.next] item.events
        else
          let progress := { progress with applies := progress.applies + 1 }
          let run :=
            match connection.apply state record with
            | (.ok _, state) =>
              (loadItems connection options endEvents progress state rest).countApplied
            | (.error e, state) =>
              if options.ignoresApply e then
                (loadItems connection options endEvents progress state rest).countSkipped.after
                  [] [applyFailed]
              else (LoadRun.failed state e.toFailure).after [] [applyFailed]
          run.after [.next, .apply record] item.events

/-- What a load has done, and its answer. -/
structure LoadReport (σ : Type) where
  /-- The answer. -/
  result : Except Failure LoadSummary
  /-- The state of the connection at the end. -/
  state : σ
  /-- The calls in order. -/
  calls : List LoadCall
  /-- What was told. -/
  events : List LogEvent

/-- Applies the records of the source to the directory. -/
def load {σ : Type} (connection : Connection σ) (state : σ) (source : LoadSource)
    (options : LoadOptions) : LoadReport σ :=
  match source.opened with
  | .error e =>
    ⟨conclude options.mode (some e.toFailure) {}, state, [.openReader],
      [.error "Could not open the reader"]⟩
  | .ok feed =>
    let run :=
      loadItems connection options feed.endEvents { octets := feed.startPosition } state feed.items
    let closing :=
      match source.closing with
      | some _ => [LogEvent.error "I/O error closing the input stream reader"]
      | none => []
    ⟨conclude options.mode run.failure run.summary, run.state,
      .openReader :: run.calls ++ [.close],
      run.events ++ closing ++ [.info "load finished"]⟩

end DirectoryExchange.Transfer

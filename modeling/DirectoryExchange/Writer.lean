import DirectoryExchange.Format
import DirectoryExchange.Stream

/-!
# Writers

A writer puts entries into an output one after the other.  It writes what stands in front of the
entries when it is created and what stands behind them when it is closed.  Every step is at most
one write, so a write that fails leaves nothing of its step in the output.
-/

namespace DirectoryExchange

/-- An output into which entries are written. -/
structure Writer (ω : Type) where
  /-- The format of the entries. -/
  format : Format
  /-- Where they are written. -/
  output : Output ω
  /-- The number of entries written. -/
  entriesWritten : Nat := 0
  /-- Whether the writer takes no more entries. -/
  closed : Bool := false

namespace Writer

variable {ω : Type}

/-- Writes what a format may have to say beside the entries. -/
def writeOptional (o : Output ω) (octets : Option Bytes) : Except StreamError Unit × Output ω :=
  match octets with
  | none => (.ok (), o)
  | some octets => o.write octets

/-- A writer behind the prolog of its format.  One whose prolog cannot be written is closed. -/
def create (format : Format) (output : Output ω) : Except StreamError Unit × Writer ω :=
  match writeOptional output format.prolog? with
  | (.ok _, output) => (.ok (), { format, output })
  | (.error e, output) => (.error e, { format, output, closed := true })

/-- The error of a writer that is asked for an entry when it is closed. -/
def closedError (format : Format) : StreamError := ⟨s!"{format.name} writer is closed"⟩

/-- Writes an entry. -/
def print (w : Writer ω) (entry : Entry) : Except StreamError Unit × Writer ω :=
  if w.closed then (.error (closedError w.format), w)
  else
    match w.output.write (w.format.renderNext w.entriesWritten entry) with
    | (.ok _, output) => (.ok (), { w with output, entriesWritten := w.entriesWritten + 1 })
    | (.error e, output) => (.error e, { w with output })

/-- Closes the writer: the epilogue is written, and the output is flushed if that went well.  To
close it again does nothing. -/
def close (w : Writer ω) : Except StreamError Unit × Writer ω :=
  if w.closed then (.ok (), w)
  else
    match writeOptional w.output w.format.epilogue? with
    | (.error e, output) => (.error e, { w with output, closed := true })
    | (.ok _, output) =>
      let (result, output) := output.flush
      (result, { w with output, closed := true })

end Writer

end DirectoryExchange

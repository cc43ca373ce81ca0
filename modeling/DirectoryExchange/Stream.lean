import DirectoryExchange.Bytes
import DirectoryExchange.Failure

/-!
# Streams

A stream to be read hands out octets and then ends or fails.  A stream to be written to decides by
its own state whether it takes a write; a write that it refuses leaves nothing in the output.
-/

namespace DirectoryExchange

/-- A stream to be read. -/
structure Source where
  /-- The octets it hands out. -/
  bytes : Bytes
  /-- How it fails behind them, if it does not end. -/
  failure : Option StreamError := none
  /-- How many octets it hands out at a time, if there is a limit. -/
  portion : Option Nat := none
  deriving DecidableEq, Repr

/-- The stream that fails once `n` of the octets have been handed out; if there are fewer, it
never fails. -/
def Source.failingAt (n : Nat) (error : StreamError) (bytes : Bytes) : Source :=
  if n ≤ bytes.length then { bytes := bytes.take n, failure := some error } else { bytes }

/-- How a stream with states `ω` takes what is written to it. -/
structure Sink (ω : Type) where
  /-- Takes or refuses the octets as a whole. -/
  write : ω → Bytes → Except StreamError Unit × ω
  /-- Passes on what it has taken. -/
  flush : ω → Except StreamError Unit × ω

/-- A stream in some state, with what it has taken so far. -/
structure Output (ω : Type) where
  /-- How the stream takes what is written. -/
  sink : Sink ω
  /-- The state of the stream. -/
  state : ω
  /-- The octets taken. -/
  written : Bytes := []
  /-- The number of writes taken. -/
  writes : Nat := 0

namespace Output

variable {ω : Type}

/-- Writes the octets, all or none. -/
def write (o : Output ω) (octets : Bytes) : Except StreamError Unit × Output ω :=
  match o.sink.write o.state octets with
  | (.ok _, state) =>
    (.ok (), { o with state, written := o.written ++ octets, writes := o.writes + 1 })
  | (.error e, state) => (.error e, { o with state })

/-- Flushes the stream. -/
def flush (o : Output ω) : Except StreamError Unit × Output ω :=
  let (result, state) := o.sink.flush o.state
  (result, { o with state })

end Output

namespace Sink

/-- A stream that takes everything. -/
def boundless : Sink Unit where
  write _ _ := (.ok (), ())
  flush _ := (.ok (), ())

/-- A stream with room for `limit` octets, if there is a limit.  Its state is the number of octets
taken. -/
def bounded (limit : Option Nat) (full : StreamError) (flushing : Option StreamError) :
    Sink Nat where
  write taken octets :=
    match limit with
    | some limit =>
      if taken + octets.length ≤ limit then (.ok (), taken + octets.length)
      else (.error full, taken)
    | none => (.ok (), taken + octets.length)
  flush taken :=
    match flushing with
    | some e => (.error e, taken)
    | none => (.ok (), taken)

end Sink

end DirectoryExchange

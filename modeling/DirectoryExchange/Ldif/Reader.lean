import DirectoryExchange.Feed
import DirectoryExchange.Ldif.Record

/-!
# Reading LDIF

`Ldif.feed` gives the change records of a source in order.  An error confined to its record is
given in its place; behind any other error nothing is read.
-/

namespace DirectoryExchange.Ldif

/-- The feed of the records, the first of which may begin with a version line.  `events` have been
told on the way to the next item, and `source` is where the records come from. -/
def feedRecords (source : Source) (versionAllowed : Bool) (events : List LogEvent) :
    List RawRecord → Feed
  | [] =>
    match source.failure with
    | some e => .last ⟨.error (.stream e), source.bytes.length, events⟩
    | none => ⟨[], source.bytes.length, events, 0⟩
  | raw :: rest =>
    match readRecord versionAllowed raw with
    | (.ok none, told) => feedRecords source false (events ++ told) rest
    | (.ok (some record), told) =>
      (feedRecords source false [] rest).cons ⟨.ok record, raw.position, events ++ told⟩
    | (.error e, told) =>
      let item : Item := ⟨.error (.parse e), raw.position, events ++ told⟩
      if e.mayContinue then (feedRecords source false [] rest).cons item else .last item

/-- Everything that the source gives. -/
def feed (source : Source) : Feed := feedRecords source true [] (rawRecords source)

end DirectoryExchange.Ldif

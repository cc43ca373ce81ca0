import DirectoryExchange.Log
import DirectoryExchange.Failure
import DirectoryExchange.Model.Change

/-!
# Feeds

Reading a source gives change records and errors one after the other, and then the end.  `Feed` is
the whole of it: every item with the number of octets that had been taken from the stream when it
was given.  `Reader` hands out a feed step by step and can be closed at any time; behind the end,
and once closed, it gives nothing more and takes nothing more from the stream.
-/

namespace DirectoryExchange

/-- One answer of a reader. -/
structure Item where
  /-- The record, or why there is none. -/
  outcome : Except ReadError ChangeRecord
  /-- The number of octets taken from the stream so far. -/
  position : Nat
  /-- What was told on the way. -/
  events : List LogEvent := []

/-- Everything a reader has to give. -/
structure Feed where
  /-- The answers in order. -/
  items : List Item
  /-- The number of octets taken from the stream when the end is reached. -/
  endPosition : Nat
  /-- What is told on the way to the end. -/
  endEvents : List LogEvent := []
  /-- The number of octets taken from the stream before the first item is asked for. -/
  startPosition : Nat := 0

namespace Feed

/-- The feed with another item in front. -/
def cons (item : Item) (f : Feed) : Feed := { f with items := item :: f.items }

/-- The feed of an item behind which nothing is read. -/
def last (item : Item) : Feed := ⟨[item], item.position, [], 0⟩

/-- The feed of a document that begins behind `n` octets of the stream. -/
def behind (n : Nat) (f : Feed) : Feed where
  items := f.items.map fun item => { item with position := item.position + n }
  endPosition := f.endPosition + n
  endEvents := f.endEvents
  startPosition := f.startPosition + n

@[simp] theorem behind_zero (f : Feed) : f.behind 0 = f := by simp [behind]

@[simp] theorem items_cons (item : Item) (f : Feed) : (f.cons item).items = item :: f.items := rfl

@[simp] theorem items_last (item : Item) : (last item).items = [item] := rfl

end Feed

/-- A feed that is handed out item by item. -/
structure Reader where
  /-- What is still to be given. -/
  remaining : Feed
  /-- The number of octets taken from the stream so far. -/
  position : Nat
  /-- Whether the reader gives nothing more. -/
  closed : Bool := false

namespace Reader

/-- The reader of a feed, before its first item. -/
def ofFeed (f : Feed) : Reader := ⟨f, f.startPosition, false⟩

/-- The next item, or `none` at the end. -/
def next (r : Reader) : Option Item × Reader :=
  if r.closed then (none, r)
  else
    match r.remaining.items with
    | [] => (none, { r with position := r.remaining.endPosition, closed := true })
    | item :: rest =>
      (some item, { r with remaining := { r.remaining with items := rest },
                           position := item.position })

/-- Closes the reader. -/
def close (r : Reader) : Reader := { r with closed := true }

end Reader

end DirectoryExchange

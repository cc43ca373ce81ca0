import DirectoryExchange.Failure
import DirectoryExchange.Model.Entry
import DirectoryExchange.SortedMap
import DirectoryExchange.Text.Utf8

/-!
# Received entries

An entry that a server sends comes with attributes in no particular order.  Attributes of texts and
attributes of other octets are held apart, and come together again in an entry: the object classes
first, the others in the order of their names.
-/

namespace DirectoryExchange.Ldap

/-- An entry as it is sent. -/
structure RawEntry where
  /-- The distinguished name. -/
  dn : String
  /-- The attributes in the order in which they are sent. -/
  attributes : List (String × List Bytes)
  deriving DecidableEq, Repr

/-- An entry as it is taken in. -/
structure ReceivedEntry where
  /-- The distinguished name. -/
  dn : String
  /-- The attributes that have texts only. -/
  texts : List (String × List Bytes)
  /-- The attributes that have other values. -/
  binaries : List (String × List Bytes)
  deriving DecidableEq, Repr

/-- The values with those that are no texts in front. -/
def binariesFirst (values : List Bytes) : List Bytes :=
  values.filter (fun v => !Utf8.isValid v) ++ values.filter Utf8.isValid

/-- The entry as it is taken in. -/
def ReceivedEntry.ofRaw (raw : RawEntry) : ReceivedEntry where
  dn := raw.dn
  texts := raw.attributes.filter fun a => a.2.all Utf8.isValid
  binaries := (raw.attributes.filter fun a => !a.2.all Utf8.isValid).map
    fun (name, values) => (name, binariesFirst values)

/-- The place of an attribute among others. -/
structure Rank where
  /-- Zero for the object classes and one for all others. -/
  group : Nat
  /-- The name without regard to case. -/
  name : List Char
  deriving DecidableEq, Repr

namespace Rank

/-- The object classes come first, and the others are in the order of their names. -/
instance : Ord Rank where
  compare := compareLex (compareOn Rank.group) (compareOn Rank.name)

instance : Std.TransOrd Rank :=
  inferInstanceAs (Std.TransCmp (compareLex (compareOn Rank.group) (compareOn Rank.name)))

/-- The place of the attribute of that name. -/
def of (name : String) : Rank := ⟨if isObjectClass name then 0 else 1, CaseFold.fold name⟩

end Rank

/-- Attributes in order, each with its spelling. -/
abbrev RankedAttributes := SortedMap Rank (String × List Bytes)

/-- The attributes with the values of another one, behind those of the same name. -/
def addRanked (attributes : RankedAttributes) (name : String) (values : List Bytes) :
    RankedAttributes :=
  match attributes.get? (Rank.of name) with
  | some (spelling, held) => attributes.insert (Rank.of name) (spelling, held ++ values)
  | none => attributes.insert (Rank.of name) (name, values)

/-- The attributes with all these in turn. -/
def addAllRanked (attributes : RankedAttributes) (added : List (String × List Bytes)) :
    RankedAttributes :=
  added.foldl (fun attributes (name, values) => addRanked attributes name values) attributes

/-- The entry that was received.  That it breaks the rules of the model is the server's fault. -/
def ReceivedEntry.toEntry (r : ReceivedEntry) : Except DirectoryError Entry :=
  let ranked := addAllRanked (addAllRanked .empty r.texts) r.binaries
  let draft := ranked.toList.foldl
    (fun draft (_, name, values) => draft.pushAll name values) ({ dn := r.dn } : EntryDraft)
  draft.build.mapError fun e => ⟨.other, e.message⟩

end DirectoryExchange.Ldap

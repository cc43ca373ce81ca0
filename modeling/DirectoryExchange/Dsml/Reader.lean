import DirectoryExchange.Base64
import DirectoryExchange.Dsml.Printer
import DirectoryExchange.Feed
import DirectoryExchange.Xml.Node

/-!
# Reading DSML

The reader walks over the nodes of a document with a `State` that says in which element it is.
Elements are known by namespace and name; any other element is passed over with all it contains.
A fault in an entry is reported when the entry ends, so that the next one can be read; a document
that is not well-formed, or not over with its root element, cannot be read further.
-/

namespace DirectoryExchange.Dsml

/-- An entry that is being read. -/
structure OpenEntry where
  /-- What has been gathered. -/
  draft : EntryDraft
  /-- The first fault. -/
  fault : Option ParseErrorKind
  deriving DecidableEq, Repr

/-- An element of values that is being read. -/
structure OpenValues where
  /-- The name of the elements that hold the values. -/
  element : String
  /-- The attribute that has the values, if it is named. -/
  name : Option String
  /-- The values so far. -/
  values : List Bytes := []
  deriving DecidableEq, Repr

/-- A value that is being read. -/
structure OpenValue where
  /-- Whether the value is given in base64. -/
  encoded : Bool
  /-- The character data so far. -/
  text : Bytes := []
  /-- The number of elements open within the value. -/
  depth : Nat := 0
  deriving DecidableEq, Repr

/-- Where in the document the next node stands. -/
inductive Place where
  /-- In the root element. -/
  | root
  /-- In the element of the entries. -/
  | entries
  /-- In an entry. -/
  | entry (entry : OpenEntry)
  /-- In an element of values. -/
  | values (entry : OpenEntry) (values : OpenValues)
  /-- In a value. -/
  | value (entry : OpenEntry) (values : OpenValues) (value : OpenValue)
  /-- Behind the root element. -/
  | trailing
  deriving DecidableEq, Repr

/-- How far the walk has come. -/
structure State where
  /-- Where the next node stands, foreign elements apart. -/
  place : Place := .root
  /-- The number of foreign elements that are open. -/
  skipping : Nat := 0
  /-- The number of entries that have begun. -/
  count : Nat := 0
  /-- What has been told since the last entry. -/
  events : List LogEvent := []
  deriving DecidableEq, Repr

/-- What a node leads to. -/
inductive Step where
  /-- The walk goes on. -/
  | proceed (state : State)
  /-- An entry is over, and the walk goes on. -/
  | give (outcome : Except ParseError ChangeRecord) (state : State)
  /-- The node has no business behind the root element. -/
  | stray

/-- The path by which the entry of that number is known. -/
def entryLocation (number : Nat) : Location :=
  .element s!"/dsml/directory-entries/entry[{number}]"

/-- Whether the tag has that name in the namespace of the format. -/
def isElement (tag : Xml.Tag) (name : String) : Bool :=
  tag.uri == some (Utf8.encode namespaceUri) && tag.name == name

/-- The entry that begins with the tag. -/
def OpenEntry.ofTag (tag : Xml.Tag) : OpenEntry :=
  let dn := (tag.attribute? "dn").getD ""
  ⟨{ dn }, if dn = "" then some (.invalidRecord .emptyDn) else none⟩

/-- What the entry gives when it is over. -/
def OpenEntry.outcome (e : OpenEntry) (location : Location) : Except ParseError ChangeRecord :=
  match e.fault with
  | some kind => .error (.recoverable kind location)
  | none =>
    match e.draft.build with
    | .ok entry => .ok (.add entry)
    | .error violation => .error (.recoverable (.invalidRecord violation) location)

/-- The entry with the values of an element that is over, and what is told of it: values without a
name are dropped. -/
def OpenEntry.take (e : OpenEntry) (vs : OpenValues) : OpenEntry × List LogEvent :=
  match vs.name with
  | some name =>
    if name = "" then (e, [.warn "ignoring DSML attr without a name"])
    else ({ e with draft := e.draft.pushAll name vs.values }, [])
  | none => (e, [.warn "ignoring DSML attr without a name"])

/-- The entry and its values with a value that is over.  One that cannot be decoded is a fault of
the entry. -/
def OpenValue.finish (v : OpenValue) (e : OpenEntry) (vs : OpenValues) : OpenEntry × OpenValues :=
  if v.encoded then
    match Base64.decode? (Utf8.decodeLossy v.text) with
    | some octets => (e, { vs with values := vs.values ++ [octets] })
    | none => ({ e with fault := e.fault.or (some .invalidBase64) }, vs)
  else
    (e, { vs with values := vs.values ++ [v.text] })

/-- Passes over an element, with all it contains. -/
def State.skip (s : State) (empty : Bool) : State :=
  if empty then s else { s with skipping := s.skipping + 1 }

/-- The walk behind an entry that is over. -/
def State.give (s : State) (e : OpenEntry) : Step :=
  .give (e.outcome (entryLocation s.count)) { s with place := .entries, events := [] }

/-- Takes up a tag outside foreign elements. -/
def State.enter (s : State) (tag : Xml.Tag) (empty : Bool) : Step :=
  match s.place with
  | .root =>
    if isElement tag "directory-entries" && !empty then .proceed { s with place := .entries }
    else .proceed (s.skip empty)
  | .entries =>
    if isElement tag "entry" then
      let s := { s with count := s.count + 1 }
      if empty then s.give (.ofTag tag) else .proceed { s with place := .entry (.ofTag tag) }
    else .proceed (s.skip empty)
  | .entry e =>
    if empty then .proceed s
    else if isElement tag "objectclass" then
      .proceed { s with place := .values e ⟨"oc-value", some objectClassName, []⟩ }
    else if isElement tag "attr" then
      .proceed { s with place := .values e ⟨"value", tag.attribute? "name", []⟩ }
    else .proceed (s.skip empty)
  | .values e vs =>
    if isElement tag vs.element then
      if empty then
        .proceed { s with place := .values e { vs with values := vs.values ++ [[]] } }
      else
        let encoded := tag.attribute? "encoding" == some "base64"
        .proceed { s with place := .value e vs { encoded } }
    else .proceed (s.skip empty)
  | .value e vs v =>
    if empty then .proceed s
    else .proceed { s with place := .value e vs { v with depth := v.depth + 1 } }
  | .trailing => .stray

/-- Takes up an end tag outside foreign elements. -/
def State.leave (s : State) : Step :=
  match s.place with
  | .root => .proceed { s with place := .trailing }
  | .entries => .proceed { s with place := .root }
  | .entry e => s.give e
  | .values e vs =>
    let (e, told) := e.take vs
    .proceed { s with place := .entry e, events := s.events ++ told }
  | .value e vs v =>
    match v.depth with
    | 0 =>
      let (e, vs) := v.finish e vs
      .proceed { s with place := .values e vs }
    | depth + 1 => .proceed { s with place := .value e vs { v with depth } }
  | .trailing => .stray

/-- Takes up character data outside foreign elements. -/
def State.read (s : State) (text : Bytes) : State :=
  match s.place with
  | .value e vs v => { s with place := .value e vs { v with text := v.text ++ text } }
  | _ => s

/-- Takes up a node. -/
def State.step (s : State) (node : Xml.Node) : Step :=
  match s.skipping with
  | 0 =>
    match node with
    | .opened tag empty => s.enter tag empty
    | .closed => s.leave
    | .text value => .proceed (s.read value)
  | depth + 1 =>
    match node with
    | .opened _ empty => .proceed (s.skip empty)
    | .closed => .proceed { s with skipping := depth }
    | .text _ => .proceed s

/-- The fault of a document that cannot be read further. -/
def xmlFault (detail : String) (position : Nat) : ParseError :=
  .fatal (.xml detail) (.offset position)

/-- The item of a fault behind which nothing can be read. -/
def faultItem (s : State) (detail : String) (position : Nat) : Item :=
  ⟨.error (.parse (xmlFault detail position)), position, s.events⟩

/-- What is said of markup that cannot be read.  The words of the XML library are not told apart. -/
def malformedMarkup : String := "malformed markup"

/-- What comes behind the nodes of a document, when so many octets have been taken: its end, or the
fault of one that is not `whole`. -/
def endFeed (s : State) (whole : Bool) (extent : Nat) : Feed :=
  if !whole then .last (faultItem s malformedMarkup extent)
  else if s.place = .trailing then ⟨[], extent, s.events, 0⟩
  else .last (faultItem s "unexpected end of document" extent)

/-- What the nodes give, in a document of that extent that is `whole` or has a fault behind
them. -/
def feedNodes (whole : Bool) (extent : Nat) (s : State) : List Xml.PlacedNode → Feed
  | [] => endFeed s whole extent
  | placed :: rest =>
    match s.step placed.node with
    | .proceed s => feedNodes whole extent s rest
    | .give outcome next =>
      (feedNodes whole extent next rest).cons
        ⟨outcome.mapError ReadError.parse, placed.position, s.events⟩
    | .stray => .last (faultItem s "content after the root element" placed.position)

/-- The fault of a document without the root element of the format. -/
def notDsml (found : String) : ReadError :=
  .parse (.fatal (.notDsml found) (.element "/"))

/-- Looks for the root element and gives what follows it.  A root element that is empty is the end
of the document, whatever stands behind it. -/
def openNodes (whole : Bool) (extent : Nat) : List Xml.PlacedNode → Except ReadError Feed
  | [] =>
    if whole then .error (notDsml "no root element")
    else .error (.parse (xmlFault malformedMarkup extent))
  | placed :: rest =>
    match placed.node with
    | .opened tag empty =>
      if isElement tag "dsml" then
        if empty then .ok ⟨[], placed.position, [], placed.position⟩
        else .ok { feedNodes whole extent {} rest with startPosition := placed.position }
      else if tag.uri == some (Utf8.encode namespaceUri) then .error (notDsml tag.name)
      else .error (notDsml s!"{tag.name} outside the DSML namespace")
    | _ => openNodes whole extent rest

/-- Everything that the source gives, if it is a document of the format at all. -/
def open? (source : Source) : Except ReadError Feed :=
  let document := Xml.Document.ofSource source
  (openNodes document.whole document.extent document.nodes).map fun f => f.behind document.start

end DirectoryExchange.Dsml

import DirectoryExchange.Xml.Tag

/-!
# Nodes

The nodes of a document are its tags, read with their names and attributes, and its character data.
They are given in order as far as the document is well-formed: every end tag has the name of the
start tag it belongs to.  Elements that never end are not a fault of their own.
-/

namespace DirectoryExchange.Xml

/-- A node of a document. -/
inductive Node where
  /-- An element begins; an `empty` one ends at once. -/
  | opened (tag : Tag) (empty : Bool)
  /-- An element ends. -/
  | closed
  /-- Character data, references resolved. -/
  | text (value : Bytes)
  deriving DecidableEq, Repr

/-- A node with the number of octets taken when it ends. -/
structure PlacedNode where
  /-- The node. -/
  node : Node
  /-- The number of octets taken. -/
  position : Nat
  deriving DecidableEq, Repr

/-- The node of a piece of the document inside the elements, and the elements behind it; `none` if
the document is not well-formed there. -/
def nodeOf? (elements : List OpenElement) : Markup → Option (Node × List OpenElement)
  | .text raw => (unescape? raw).map fun s => (.text (Utf8.encode s), elements)
  | .literal raw => some (.text raw, elements)
  | .startTag content selfClosing =>
    (readTag? elements content).map fun (tag, element) =>
      (.opened tag selfClosing, if selfClosing then elements else element :: elements)
  | .endTag content =>
    match elements with
    | element :: outer => if element.name = endName content then some (.closed, outer) else none
    | [] => none

/-- The nodes of the pieces inside the elements, and whether all are well-formed. -/
def nodesWithin (elements : List OpenElement) : List Lexeme → List PlacedNode × Bool
  | [] => ([], true)
  | lexeme :: rest =>
    match nodeOf? elements lexeme.markup with
    | some (node, elements) =>
      let (nodes, whole) := nodesWithin elements rest
      (⟨node, lexeme.position⟩ :: nodes, whole)
    | none => ([], false)

/-- The number of octets taken when the fault of a document is met: those up to the end of the first
piece that is not read as a node, or else up to where something is begun that is no markup.  What is
begun and never ends takes all of them. -/
def faultPlace (octets : Bytes) (lexemes : List Lexeme) (nodes : List PlacedNode) : Nat :=
  match lexemes[nodes.length]? with
  | some lexeme => lexeme.position
  | none => brokenAt 0 (.text []) octets

/-- What can be read of a document. -/
structure Document where
  /-- The number of octets in front of it. -/
  start : Nat
  /-- The number of its octets that are taken: all of them, or those up to the fault. -/
  extent : Nat
  /-- The nodes in order. -/
  nodes : List PlacedNode
  /-- Whether the end of the document follows them, and not a fault. -/
  whole : Bool
  deriving DecidableEq, Repr

/-- The document of the source. -/
def Document.ofSource (source : Source) : Document :=
  let start := markLength source
  let octets := source.bytes.drop start
  let (lexemes, complete) := lex octets source.failure.isNone
  let (nodes, whole) := nodesWithin [] lexemes
  let whole := whole && complete
  { start
    extent := if whole then octets.length else faultPlace octets lexemes nodes
    nodes
    whole }

end DirectoryExchange.Xml

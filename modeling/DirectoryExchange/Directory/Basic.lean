import DirectoryExchange.Directory.Nodes
import DirectoryExchange.Filter.Parser
import DirectoryExchange.Model.Search

/-!
# Directories

A directory held in memory is a tree of nodes, in which there are entries and glue.  Glue lies above
an entry whose ancestors were all missing when it was added.  The root is always there; it has no
entry, unless it is that of a subtree which has been cut off.
-/

namespace DirectoryExchange

/-- A directory in memory. -/
structure Directory where
  /-- What is at each path; glue is `none`. -/
  nodes : Nodes
  /-- Whatever is above a node is a node. -/
  tree : nodes.IsTree
  deriving DecidableEq

namespace Directory

/-- The directory without entries. -/
def empty : Directory := ⟨.empty, Nodes.isTree_empty⟩

/-- The entry at the path. -/
def entryAt? (d : Directory) (path : Dn.Path) : Option StoredEntry := (d.nodes.get? path).join

/-- Whether there is anything at the path. -/
def hasNodeAt (d : Directory) (path : Dn.Path) : Bool := d.nodes.hasAt path

/-- Whether the path leads to a place below the other one. -/
def isBelow (path ancestor : Dn.Path) : Bool := ancestor.isPrefixOf path && path != ancestor

/-- The entries in order of their paths. -/
def stored (d : Directory) : List StoredEntry := d.nodes.toList.filterMap (·.2)

/-- The number of entries. -/
def size (d : Directory) : Nat := d.stored.length

/-- The entry as the model has it. -/
def StoredEntry.toEntry (s : StoredEntry) : Except DirectoryError Entry := s.attributes.toEntry s.dn

/-- The entry of that name. -/
def get? (d : Directory) (dn : String) : Option Entry := do
  let path ← Dn.path? dn
  let found ← d.entryAt? path
  (StoredEntry.toEntry found).toOption

/-- All entries, each before those below it. -/
def entries (d : Directory) : List Entry :=
  d.stored.filterMap fun s => (StoredEntry.toEntry s).toOption

/-- The error of a text that is no distinguished name. -/
def invalidDn (dn : String) : DirectoryError :=
  ⟨.invalidDnSyntax, s!"invalid DN {Quoted.quote dn}"⟩

/-- The error of a name that no entry has. -/
def noSuchObject (dn : String) : DirectoryError :=
  ⟨.noSuchObject, s!"no such object: {Quoted.quote dn}"⟩

/-- The path that the text gives. -/
def pathOf (dn : String) : Except DirectoryError Dn.Path :=
  match Dn.path? dn with
  | some path => .ok path
  | none => .error (invalidDn dn)

/-- The path of an entry that the text gives, which is not the root's. -/
def entryPathOf (dn : String) : Except DirectoryError Dn.Path := do
  let path ← pathOf dn
  if path.isEmpty then .error (invalidDn dn) else return path

/-- Whether a search that begins at the base looks at the path. -/
def inScope (base : Dn.Path) (scope : Scope) (path : Dn.Path) : Bool :=
  match scope with
  | .base => path == base
  | .oneLevel => base.isPrefixOf path && path.length == base.length + 1
  | .subtree => base.isPrefixOf path

/-- The entries in the scope that satisfy the filter, in order of their paths. -/
def select (d : Directory) (base : Dn.Path) (scope : Scope) (filter : Filter) :
    List StoredEntry :=
  let inScopeOnly := d.nodes.toList.filter fun (path, _) => inScope base scope path
  (inScopeOnly.filterMap (·.2)).filter fun s => filter.holds s.attributes

/-- The filter of the text. -/
def filterOf (text : String) : Except DirectoryError Filter :=
  match Filter.parse text with
  | .ok filter => .ok filter
  | .error .malformed => .error ⟨.protocolError, s!"malformed filter {Quoted.quote text}"⟩
  | .error .unsupported =>
    .error ⟨.unwillingToPerform, s!"unsupported filter {Quoted.quote text}"⟩

/-- The entries that the request asks for. -/
def find (d : Directory) (request : SearchRequest) : Except DirectoryError (List Entry) := do
  let filter ← filterOf request.filter
  let base ← pathOf request.base
  if d.hasNodeAt base then (d.select base request.scope filter).mapM StoredEntry.toEntry
  else .error (noSuchObject request.base)

/-- The answer to the request.  An error of a search is told by its code. -/
def search (d : Directory) (request : SearchRequest) : SearchResult :=
  match d.find request with
  | .ok entries => .found entries
  | .error e => ⟨e.code, e.message, []⟩

end Directory

end DirectoryExchange

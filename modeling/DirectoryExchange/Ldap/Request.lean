import DirectoryExchange.Model.Change
import DirectoryExchange.Model.Search

/-!
# Requests

What is sent to an LDAP server.  The values of an attribute are sent as a set: without repetitions,
and here in the order of their octets.
-/

namespace DirectoryExchange.Ldap

/-- Puts a value in its place among values in ascending order, unless it is there. -/
def insertValue (value : Bytes) : List Bytes → List Bytes
  | [] => [value]
  | other :: rest =>
    match compare value other with
    | .lt => value :: other :: rest
    | .eq => other :: rest
    | .gt => other :: insertValue value rest

/-- The set of the values. -/
def valueSet (values : List Bytes) : List Bytes := values.foldr insertValue []

/-- A request. -/
inductive Request where
  /-- Authenticates with a name and password. -/
  | bind (dn password : String)
  /-- Ends the session. -/
  | unbind
  /-- Adds an entry with these sets of values. -/
  | add (dn : String) (attributes : List (String × List Bytes))
  /-- Deletes an entry. -/
  | delete (dn : String)
  /-- Modifies an entry by these sets of values. -/
  | modify (dn : String) (steps : List (ModificationKind × String × List Bytes))
  /-- Renames an entry. -/
  | rename (dn newRdn : String) (deleteOldRdn : Bool) (newSuperior : Option String)
  /-- Searches for entries and these attributes of them. -/
  | search (request : SearchRequest) (attributes : List String)
  deriving DecidableEq, Repr

/-- The attributes that searches ask for: all of them. -/
def allAttributes : List String := ["*"]

/-- The request for a change. -/
def Request.ofRecord : ChangeRecord → Request
  | .add entry => .add entry.dn (entry.attributes.map fun a => (a.name, valueSet a.values))
  | .delete dn _ => .delete dn
  | .modify dn steps _ _ =>
    .modify dn (steps.map fun m => (m.kind, m.name, valueSet m.values))
  | .rename dn r _ => .rename dn r.newRdn r.deleteOldRdn r.newSuperior

end DirectoryExchange.Ldap

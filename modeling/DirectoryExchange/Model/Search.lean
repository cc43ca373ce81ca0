import DirectoryExchange.Model.Entry
import DirectoryExchange.Model.ResultCode

/-!
# Searches

A search asks a directory for the entries at or below a base that satisfy a filter.  Base and
filter are texts; what they mean is the directory's concern.
-/

namespace DirectoryExchange

/-- How far below the base a search looks. -/
inductive Scope where
  /-- The base alone. -/
  | base
  /-- What lies directly below the base. -/
  | oneLevel
  /-- The base and everything below it. -/
  | subtree
  deriving DecidableEq, Repr

/-- What a search asks for. -/
structure SearchRequest where
  /-- The name at which the search begins. -/
  base : String
  /-- The filter that entries have to satisfy. -/
  filter : String
  /-- How far the search looks. -/
  scope : Scope
  deriving DecidableEq, Repr

/-- What a search answers. -/
structure SearchResult where
  /-- How the search went. -/
  code : ResultCode
  /-- What the directory has to say about it. -/
  message : String
  /-- The entries found, in the order of the directory. -/
  entries : List Entry
  deriving DecidableEq, Repr

/-- The answer of a search that went well. -/
def SearchResult.found (entries : List Entry) : SearchResult := ⟨.success, "", entries⟩

end DirectoryExchange

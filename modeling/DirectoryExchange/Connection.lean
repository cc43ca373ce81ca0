import DirectoryExchange.Failure
import DirectoryExchange.Model.Change
import DirectoryExchange.Model.Search

/-!
# Connections

A transfer reaches a directory through a connection, which may be to anything that applies change
records and answers searches.  What it answers may depend on all that was asked before: that is its
state.
-/

namespace DirectoryExchange

/-- A way to a directory, with states `σ`. -/
structure Connection (σ : Type) where
  /-- Has the directory carry out a change. -/
  apply : σ → ChangeRecord → Except OperationError Unit × σ
  /-- Has the directory look for entries. -/
  search : σ → SearchRequest → Except OperationError SearchResult × σ

end DirectoryExchange

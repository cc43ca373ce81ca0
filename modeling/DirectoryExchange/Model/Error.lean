import DirectoryExchange.Text.Quoted

/-!
# Violations of the model

What can be wrong with an entry or a change record whose parts are put together.
-/

namespace DirectoryExchange

/-- Why parts do not make an entry or a change record. -/
inductive ModelError where
  /-- The distinguished name is the empty text. -/
  | emptyDn
  /-- An attribute has the empty name. -/
  | emptyAttributeName
  /-- The attribute has no values. -/
  | noValues (name : String)
  /-- A second attribute has the name of an earlier one. -/
  | duplicateAttribute (name : String)
  /-- A modify record has nothing to do. -/
  | noModifications
  /-- The new relative name is the empty text. -/
  | emptyNewRdn
  deriving DecidableEq, Repr

/-- The violation in words. -/
def ModelError.message : ModelError → String
  | emptyDn => "distinguished name is empty"
  | emptyAttributeName => "attribute name is empty"
  | noValues name => s!"attribute {Quoted.quote name} has no values"
  | duplicateAttribute name => s!"attribute {Quoted.quote name} appears more than once"
  | noModifications => "modify record carries no modifications"
  | emptyNewRdn => "new RDN is empty"

end DirectoryExchange

/-!
# Result codes

A directory answers every operation with a number.  `ResultCode.text` shows it with its name, or
with a name made from the number where there is none.
-/

namespace DirectoryExchange

/-- The number by which a directory says how an operation went. -/
structure ResultCode where
  /-- The number. -/
  number : Nat
  deriving DecidableEq, Repr

namespace ResultCode

/-- The operation was carried out. -/
def success : ResultCode := ⟨0⟩
/-- The directory failed for a reason of its own. -/
def operationsError : ResultCode := ⟨1⟩
/-- The request makes no sense. -/
def protocolError : ResultCode := ⟨2⟩
/-- An attribute or value to be removed is not there. -/
def noSuchAttribute : ResultCode := ⟨16⟩
/-- A value to be added is there already. -/
def attributeOrValueExists : ResultCode := ⟨20⟩
/-- There is no entry of that name. -/
def noSuchObject : ResultCode := ⟨32⟩
/-- The text is no distinguished name. -/
def invalidDnSyntax : ResultCode := ⟨34⟩
/-- The name or password is wrong. -/
def invalidCredentials : ResultCode := ⟨49⟩
/-- The operation is not allowed to the one who asks for it. -/
def insufficientAccessRights : ResultCode := ⟨50⟩
/-- The directory does not do such a thing. -/
def unwillingToPerform : ResultCode := ⟨53⟩
/-- The entry does not fit its object classes. -/
def objectClassViolation : ResultCode := ⟨65⟩
/-- The entry has entries below it. -/
def notAllowedOnNonLeaf : ResultCode := ⟨66⟩
/-- There is an entry of that name. -/
def entryAlreadyExists : ResultCode := ⟨68⟩
/-- Any other failure. -/
def other : ResultCode := ⟨80⟩

/-- Whether the operation was carried out. -/
def isSuccess (c : ResultCode) : Bool := c == success

/-- The names of the codes that have one. -/
def names : List (ResultCode × String) :=
  [(success, "success"), (operationsError, "operationsError"), (protocolError, "protocolError"),
    (noSuchAttribute, "noSuchAttribute"), (attributeOrValueExists, "attributeOrValueExists"),
    (noSuchObject, "noSuchObject"), (invalidDnSyntax, "invalidDNSyntax"),
    (invalidCredentials, "invalidCredentials"),
    (insufficientAccessRights, "insufficientAccessRights"),
    (unwillingToPerform, "unwillingToPerform"), (objectClassViolation, "objectClassViolation"),
    (notAllowedOnNonLeaf, "notAllowedOnNonLeaf"), (entryAlreadyExists, "entryAlreadyExists"),
    (other, "other")]

/-- The name of the code. -/
def name (c : ResultCode) : String := (names.lookup c).getD s!"resultCode{c.number}"

/-- The code as it is shown: its name and number. -/
def text (c : ResultCode) : String := s!"{c.name} ({c.number})"

end ResultCode

end DirectoryExchange

/-!
# Log events

What readers and transfers have to say beside their results.  An event is a message at a level.
-/

namespace DirectoryExchange

/-- How much an event matters. -/
inductive Level where
  | error
  | warn
  | info
  deriving DecidableEq, Repr

/-- Something worth telling. -/
structure LogEvent where
  /-- How much it matters. -/
  level : Level
  /-- What happened. -/
  message : String
  deriving DecidableEq, Repr

namespace LogEvent

/-- An event that stops or spoils the work. -/
def error (message : String) : LogEvent := ⟨.error, message⟩

/-- An event that the work survives. -/
def warn (message : String) : LogEvent := ⟨.warn, message⟩

/-- An event of the normal course. -/
def info (message : String) : LogEvent := ⟨.info, message⟩

end LogEvent

end DirectoryExchange

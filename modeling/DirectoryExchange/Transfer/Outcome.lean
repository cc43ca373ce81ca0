import DirectoryExchange.Failure

/-!
# Outcomes of transfers

A failure that stops a transfer is always told.  Whether it is also the answer of the transfer, or
the answer is the summary of what was done, is a matter of the mode.
-/

namespace DirectoryExchange.Transfer

/-- What the answer of a transfer that failed is. -/
inductive Mode where
  /-- The summary. -/
  | tolerant
  /-- The failure. -/
  | strict
  deriving DecidableEq, Repr

/-- The answer of a transfer. -/
def conclude {α : Type} (mode : Mode) (failure : Option Failure) (summary : α) :
    Except Failure α :=
  match mode, failure with
  | .strict, some failure => .error failure
  | _, _ => .ok summary

/-- Without a failure the answer is the summary, in either mode. -/
@[simp] theorem conclude_none {α : Type} (mode : Mode) (summary : α) :
    conclude mode none summary = .ok summary := by
  cases mode <;> rfl

@[simp] theorem conclude_strict_some {α : Type} (failure : Failure) (summary : α) :
    conclude .strict (some failure) summary = .error failure := rfl

/-- A tolerant transfer always answers with its summary. -/
@[simp] theorem conclude_tolerant {α : Type} (failure : Option Failure) (summary : α) :
    conclude .tolerant failure summary = .ok summary := by
  cases failure <;> rfl

end DirectoryExchange.Transfer

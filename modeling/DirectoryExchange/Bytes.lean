/-!
# Octet strings

Attribute values are strings of octets, and both exchange formats are read and written as octets.
They are plain lists, so that every reader is a recursion on its input.  This file holds the part
of ASCII that the library needs on octets: letter case, the named octets of the two formats, and
the cuts at a given octet that every line and tag begins with.
-/

namespace DirectoryExchange

/-- A string of octets. -/
abbrev Bytes := List UInt8

namespace Bytes

/-- The tab. -/
def tab : UInt8 := 0x09

/-- The line feed, which ends a line. -/
def lineFeed : UInt8 := 0x0A

/-- The carriage return, which may stand before a line feed. -/
def carriageReturn : UInt8 := 0x0D

/-- The space. -/
def space : UInt8 := 0x20

/-- The ASCII letter in lower case; any other octet as it is. -/
def lowerOctet (b : UInt8) : UInt8 :=
  if 0x41 ≤ b ∧ b ≤ 0x5A then b + 0x20 else b

/-- All ASCII letters in lower case. -/
def lower (v : Bytes) : Bytes := v.map lowerOctet

/-- Equality up to the case of ASCII letters. -/
def sameIgnoringCase (v w : Bytes) : Bool := v.lower == w.lower

/-- The octets before the first `mark` and those behind it; `none` if there is no `mark`. -/
def cutAt? (mark : UInt8) : Bytes → Option (Bytes × Bytes)
  | [] => none
  | b :: rest =>
    if b = mark then some ([], rest)
    else (cutAt? mark rest).map fun (before, behind) => (b :: before, behind)

/-- The octets without the `mark`s at their end. -/
def dropTrailing (mark : UInt8) (v : Bytes) : Bytes :=
  (v.reverse.dropWhile (· == mark)).reverse

/-- The octets without the spaces at both ends. -/
def trimSpaces (v : Bytes) : Bytes :=
  (dropTrailing space v).dropWhile (· == space)

@[simp] theorem lower_nil : lower [] = [] := rfl

@[simp] theorem lower_cons (b : UInt8) (v : Bytes) :
    lower (b :: v) = lowerOctet b :: lower v := rfl

@[simp] theorem length_lower (v : Bytes) : v.lower.length = v.length := by
  simp [lower]

@[simp] theorem sameIgnoringCase_iff (v w : Bytes) :
    sameIgnoringCase v w = true ↔ v.lower = w.lower := by
  simp [sameIgnoringCase]

/-- What is cut at a mark is the part in front of it, the mark and the part behind it. -/
theorem eq_append_of_cutAt? {mark : UInt8} {v before behind : Bytes}
    (h : cutAt? mark v = some (before, behind)) : v = before ++ mark :: behind := by
  induction v generalizing before with
  | nil => simp [cutAt?] at h
  | cons b rest ih =>
    unfold cutAt? at h
    split at h
    · next hb => simp_all
    · obtain ⟨⟨p, q⟩, hpq, heq⟩ := Option.map_eq_some_iff.1 h
      simp only [Prod.mk.injEq] at heq
      obtain ⟨rfl, rfl⟩ := heq
      simp [ih hpq]

end Bytes

end DirectoryExchange

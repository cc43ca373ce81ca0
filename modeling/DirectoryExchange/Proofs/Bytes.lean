import DirectoryExchange.Bytes
import Mathlib.Tactic.Lemma

/-!
# Octets and cuts

Facts on octets as numbers, and on the cuts that lines and tags begin with: an octet string is cut
at the first mark, wherever it has one, and spaces are taken off the ends only.
-/

namespace DirectoryExchange.Bytes

lemma toNat_ofNat_of_lt {n : Nat} (h : n < 256) : (UInt8.ofNat n).toNat = n := by
  rw [UInt8.toNat_ofNat']
  omega

lemma ofNat_eq_of_toNat_eq {n : Nat} {a : UInt8} (h : n = a.toNat) : UInt8.ofNat n = a := by
  rw [h, UInt8.ofNat_toNat]

/-- The first mark is where octets are cut. -/
theorem cutAt?_append {mark : UInt8} {before : Bytes} (h : mark ∉ before) (behind : Bytes) :
    cutAt? mark (before ++ mark :: behind) = some (before, behind) := by
  induction before with
  | nil => simp [cutAt?]
  | cons b before ih =>
    rw [List.mem_cons, not_or] at h
    simp [cutAt?, Ne.symm h.1, ih h.2]

/-- There is no mark in front of the cut. -/
theorem not_mem_of_cutAt? {mark : UInt8} {v before behind : Bytes}
    (h : cutAt? mark v = some (before, behind)) : mark ∉ before := by
  induction v generalizing before with
  | nil => simp [cutAt?] at h
  | cons b rest ih =>
    unfold cutAt? at h
    split at h
    · obtain ⟨rfl, -⟩ := Prod.mk.inj (Option.some.inj h)
      exact List.not_mem_nil
    · next hb =>
      obtain ⟨⟨p, q⟩, hpq, heq⟩ := Option.map_eq_some_iff.1 h
      obtain ⟨rfl, rfl⟩ := Prod.mk.inj heq
      rw [List.mem_cons, not_or]
      exact ⟨Ne.symm hb, ih hpq⟩

/-- Octets that do not end with the mark keep their end. -/
lemma dropTrailing_eq_self {mark : UInt8} {v : Bytes} (h : v.getLast? ≠ some mark) :
    dropTrailing mark v = v := by
  have : v.reverse.head? ≠ some mark := by rwa [List.head?_reverse]
  rw [dropTrailing, List.dropWhile_beq_eq_self_of_head?_ne this, List.reverse_reverse]

/-- Only marks are taken off. -/
lemma mem_dropTrailing {mark b : UInt8} {v : Bytes} (h : b ∈ v) (hb : b ≠ mark) :
    b ∈ dropTrailing mark v := by
  rw [dropTrailing, List.mem_reverse]
  rw [← List.mem_reverse, ← List.takeWhile_append_dropWhile (p := (· == mark)) (l := v.reverse),
    List.mem_append] at h
  refine h.resolve_left fun hmem => hb ?_
  simpa using List.all_eq_true.1 (List.all_takeWhile (p := (· == mark))) b hmem

/-- Marks behind the octets make no difference. -/
lemma dropTrailing_append_replicate (mark : UInt8) (v : Bytes) (n : Nat) :
    dropTrailing mark (v ++ List.replicate n mark) = dropTrailing mark v := by
  rw [dropTrailing, dropTrailing, List.reverse_append, List.reverse_replicate,
    List.dropWhile_append_of_pos]
  intro b hb
  rw [List.eq_of_mem_replicate hb, beq_self_eq_true]

/-- Spaces around octets without spaces are all that is taken off. -/
theorem trimSpaces_replicate {v : Bytes} (h : space ∉ v) (left right : Nat) :
    trimSpaces (List.replicate left space ++ (v ++ List.replicate right space)) = v := by
  have hhead : v.head? ≠ some space := fun k => h (List.mem_of_head? k)
  have hlast : v.getLast? ≠ some space := fun k => h (List.mem_of_getLast? k)
  rw [trimSpaces, ← List.append_assoc, dropTrailing_append_replicate]
  cases v with
  | nil =>
    have hnone := dropTrailing_append_replicate space [] left
    rw [List.nil_append] at hnone
    rw [List.append_nil, hnone]
    rfl
  | cons b rest =>
    have hend : (List.replicate left space ++ b :: rest).getLast? ≠ some space := by
      rw [List.getLast?_append]
      rw [List.getLast?_eq_some_getLast (List.cons_ne_nil b rest)] at hlast ⊢
      exact hlast
    rw [dropTrailing_eq_self hend, List.dropWhile_append_of_pos,
      List.dropWhile_beq_eq_self_of_head?_ne hhead]
    intro b hb
    rw [List.eq_of_mem_replicate hb, beq_self_eq_true]

/-- A space in front of octets without spaces is all that is taken off. -/
lemma trimSpaces_cons {v : Bytes} (h : space ∉ v) : trimSpaces (space :: v) = v := by
  simpa using trimSpaces_replicate h 1 0

end DirectoryExchange.Bytes

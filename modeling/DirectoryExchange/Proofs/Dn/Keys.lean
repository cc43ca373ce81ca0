import DirectoryExchange.Proofs.Dn.Grammar
import DirectoryExchange.Proofs.Dn.Join
import Mathlib.Data.List.Perm.Basic

/-!
# Names of the same place

The key of a relative name forgets the order of its pairs and the case of their letters, and nothing
else: two relative names have one key exactly if they have the same pairs in lower case, each as
often (`key_eq_iff`).  A place may thus be written in every way that the grammar has for relative
names that are respelled (`Respelled`).
-/

namespace DirectoryExchange.Dn

/-! ### Keys -/

/-- An insertion in order keeps the order. -/
lemma pairwise_insertInOrder {a : AvaKey} {keys : List AvaKey}
    (h : keys.Pairwise fun x y => (compare x y).isLE) :
    (insertInOrder a keys).Pairwise fun x y => (compare x y).isLE := by
  induction keys with
  | nil => exact List.pairwise_singleton _ a
  | cons b keys ih =>
    obtain ⟨hb, hkeys⟩ := List.pairwise_cons.1 h
    unfold insertInOrder
    split
    · next hab =>
      refine List.pairwise_cons.2 ⟨fun x hx => ?_, h⟩
      rcases List.mem_cons.1 hx with rfl | hx
      · exact hab
      · exact Std.TransCmp.isLE_trans hab (hb x hx)
    · next hab =>
      refine List.pairwise_cons.2 ⟨fun x hx => ?_, ih hkeys⟩
      rcases List.mem_cons.1 ((insertInOrder_perm a keys).subset hx) with rfl | hx
      · exact Ordering.isLE_of_eq_lt (Std.OrientedCmp.lt_of_not_isLE hab)
      · exact hb x hx

/-- The pairs of a key are in order. -/
lemma pairwise_key (rdn : Rdn) : (Rdn.key rdn).Pairwise fun x y => (compare x y).isLE := by
  rw [Rdn.key]
  induction rdn.map Ava.key with
  | nil => exact .nil
  | cons a keys ih => exact pairwise_insertInOrder ih

/-- The pairs of a relative name in lower case: types as Unicode has it, values only where they are
ASCII. -/
def pairs (rdn : Rdn) : List (String × Bytes) :=
  rdn.map fun ava => (Lowercase.lower ava.type, ava.value.lower)

/-- A key says which pairs a relative name has in lower case, and how often. -/
theorem key_eq_iff {a b : Rdn} : Rdn.key a = Rdn.key b ↔ (pairs a).Perm (pairs b) := by
  have hpairs : ∀ rdn, pairs rdn = (rdn.map Ava.key).map fun key => (key.type, key.value) := by
    intro rdn
    rw [pairs, List.map_map]
    rfl
  have hkeys : ∀ rdn, rdn.map Ava.key = (pairs rdn).map fun pair => ⟨pair.1, pair.2⟩ := by
    intro rdn
    rw [pairs, List.map_map]
    rfl
  constructor
  · intro h
    have hperm : (a.map Ava.key).Perm (b.map Ava.key) := (key_perm a).symm.trans (h ▸ key_perm b)
    rw [hpairs, hpairs]
    exact hperm.map _
  · intro h
    have hperm : (a.map Ava.key).Perm (b.map Ava.key) := by
      rw [hkeys, hkeys]
      exact h.map _
    have hanti : ∀ x y : AvaKey, x ∈ Rdn.key a → y ∈ Rdn.key b →
        (compare x y).isLE → (compare y x).isLE → x = y := by
      intro x y _ _ hxy hyx
      exact Std.LawfulEqCmp.eq_of_compare (Std.OrientedCmp.isLE_antisymm hxy hyx)
    exact ((key_perm a).trans (hperm.trans (key_perm b).symm)).eq_of_pairwise hanti
      (pairwise_key a) (pairwise_key b)

/-- Paths are equal if the relative names at every place have the same pairs. -/
theorem pathOf_eq_iff {rdns rdns' : List Rdn} : pathOf rdns = pathOf rdns' ↔
    List.Forall₂ (fun a b => (pairs a).Perm (pairs b)) rdns rdns' := by
  rw [pathOf, pathOf, List.reverse_inj, ← List.forall₂_eq_eq_eq, List.forall₂_map_left_iff,
    List.forall₂_map_right_iff]
  simp only [key_eq_iff]

/-! ### Other spellings -/

/-- Whether two pairs differ in the case of ASCII letters only. -/
structure SameAva (a b : Ava) : Prop where
  type : a.type.toList.map Char.toLower = b.type.toList.map Char.toLower
  value : a.value.lower = b.value.lower

/-- Whether two relative names differ in the order of their pairs and the case of ASCII letters
only. -/
def Respelled (a b : Rdn) : Prop := ∃ reordered, a.Perm reordered ∧ List.Forall₂ SameAva reordered b

/-- Whether all characters of all types are ASCII. -/
def AsciiTypes (rdn : Rdn) : Prop := ∀ ava ∈ rdn, ∀ c ∈ ava.type.toList, c.toNat < 0x80

/-- Pairs that differ in letter case only are the same in lower case. -/
lemma pairs_eq_of_sameAva {a b : Rdn} (h : List.Forall₂ SameAva a b) : pairs a = pairs b := by
  induction h with
  | nil => rfl
  | cons hava _ ih =>
    rw [pairs, pairs, List.map_cons, List.map_cons, hava.value,
      Lowercase.lower_eq_of_map_toLower hava.type]
    exact congrArg _ ih

/-- A relative name that is respelled keeps its pairs in lower case. -/
lemma Respelled.perm {a b : Rdn} (h : Respelled a b) : (pairs a).Perm (pairs b) := by
  obtain ⟨reordered, hperm, hsame⟩ := h
  rw [← pairs_eq_of_sameAva hsame]
  exact hperm.map _

/-- Where types are ASCII, relative names with the same pairs in lower case are respelled. -/
theorem respelled_of_perm {a b : Rdn} (ha : AsciiTypes a) (hb : AsciiTypes b)
    (h : (pairs a).Perm (pairs b)) : Respelled a b := by
  have hlower : List.Forall₂ (fun ava pair => (Lowercase.lower ava.type, ava.value.lower) = pair) a
      (pairs a) := by
    rw [pairs, List.forall₂_map_right_iff]
    exact List.forall₂_same.2 fun _ _ => rfl
  obtain ⟨reordered, hperm, hsame⟩ : (Relation.Comp List.Perm (List.Forall₂ _)) a (pairs b) := by
    rw [← List.forall₂_comp_perm_eq_perm_comp_forall₂]
    exact ⟨pairs a, hlower, h⟩
  refine ⟨reordered, hperm, ?_⟩
  rw [pairs, List.forall₂_map_right_iff, List.forall₂_iff_zip] at hsame
  refine List.forall₂_iff_zip.2 ⟨hsame.1, fun {x y} hxy => ?_⟩
  obtain ⟨hx, hy⟩ := List.of_mem_zip hxy
  obtain ⟨htype, hvalue⟩ := Prod.mk.inj (hsame.2 hxy)
  refine ⟨?_, hvalue⟩
  rw [← Lowercase.toList_lower_of_ascii (ha x (hperm.mem_iff.2 hx)), htype,
    Lowercase.toList_lower_of_ascii (hb y hy)]

end DirectoryExchange.Dn

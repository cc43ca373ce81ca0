import DirectoryExchange.SortedMap
import Mathlib.Tactic.Lemma

/-!
# What sorted maps hold

Two maps are equal if they hold the same entries (`eq_of_mem_iff`), and so an operation on a map is
described by the entries that the map holds behind it.  What follows is about their number and
order.
-/

namespace DirectoryExchange.SortedMap

variable {κ α : Type} [Ord κ] [Std.LawfulEqOrd κ]

/-- A key has one value. -/
lemma value_unique {m : SortedMap κ α} {k : κ} {v v' : α} (h : (k, v) ∈ m.toList)
    (h' : (k, v') ∈ m.toList) : v = v' := by
  classical
  have hv := (lookup_eq_some_iff m.nodup_keys).2 h
  have hv' := (lookup_eq_some_iff m.nodup_keys).2 h'
  exact Option.some.inj (hv.symm.trans hv')

lemma nodup_toList (m : SortedMap κ α) : m.toList.Nodup :=
  List.Pairwise.of_map _ (fun x y hne heq => hne (by rw [heq])) m.nodup_keys

/-- Maps with the same entries are equal. -/
theorem eq_of_mem_iff [Std.TransOrd κ] {m n : SortedMap κ α}
    (h : ∀ x, x ∈ m.toList ↔ x ∈ n.toList) : m = n := by
  have hperm : m.toList.Perm n.toList :=
    (List.perm_ext_iff_of_nodup m.nodup_toList n.nodup_toList).2 h
  have hanti : ∀ x y : κ × α, x ∈ m.toList → y ∈ n.toList →
      compare x.1 y.1 = .lt → compare y.1 x.1 = .lt → x = y := by
    intro x y _ _ hxy hyx
    exact absurd rfl (compare_ne_of_lt (Std.TransCmp.lt_trans hxy hyx))
  exact SortedMap.ext (hperm.eq_of_pairwise hanti m.sorted n.sorted)

variable [Std.TransOrd κ]

/-- Behind an insertion there is the new value at its key, and what was there at the others. -/
theorem get?_insert [DecidableEq κ] (m : SortedMap κ α) (k k' : κ) (v : α) :
    (m.insert k v).get? k' = if k' = k then some v else m.get? k' := by
  refine Option.ext fun w => ?_
  rw [get?_eq_some_iff, mem_insert_iff, Prod.mk.injEq]
  split
  · next hk => simp [hk, eq_comm]
  · next hk => simp [hk, get?_eq_some_iff]

/-- Insertions at different keys leave the rest of the entries beside the new ones. -/
theorem perm_insertAll [DecidableEq κ] {entries : List (κ × α)}
    (hdistinct : (entries.map (·.1)).Nodup) (m : SortedMap κ α) :
    (m.insertAll entries).toList.Perm
      (entries ++ m.toList.filter fun x => x.1 ∉ entries.map (·.1)) := by
  have hentries : entries.Nodup :=
    List.Pairwise.of_map _ (fun x y hne heq => hne (by rw [heq])) hdistinct
  have hboth : (entries ++ m.toList.filter fun x => x.1 ∉ entries.map (·.1)).Nodup := by
    refine List.nodup_append.2 ⟨hentries, m.nodup_toList.filter _, ?_⟩
    rintro x hx y hy rfl
    rw [List.mem_filter, decide_eq_true_eq] at hy
    exact hy.2 (List.mem_map_of_mem hx)
  refine (List.perm_ext_iff_of_nodup (nodup_toList _) hboth).2 ?_
  intro x
  rw [mem_insertAll_iff hdistinct, List.mem_append, List.mem_filter, decide_eq_true_eq]

/-- An insertion leaves the entries at the other keys beside the new one. -/
lemma perm_insert [DecidableEq κ] (m : SortedMap κ α) (k : κ) (v : α) :
    (m.insert k v).toList.Perm ((k, v) :: m.toList.filter fun x => x.1 ≠ k) := by
  have hinsert : m.insert k v = m.insertAll [(k, v)] := rfl
  have hsingle : ([(k, v)].map (·.1)).Nodup := List.pairwise_singleton _ _
  rw [hinsert]
  refine (perm_insertAll hsingle m).trans ?_
  simp

/-- A new key makes one entry more. -/
lemma length_insert_of_not_mem {m : SortedMap κ α} {k : κ} (h : ∀ x ∈ m.toList, x.1 ≠ k) (v : α) :
    (m.insert k v).toList.length = m.toList.length + 1 := by
  classical
  have hall : m.toList.filter (fun x => x.1 ≠ k) = m.toList :=
    List.filter_eq_self.2 fun x hx => decide_eq_true (h x hx)
  rw [(m.perm_insert k v).length_eq, List.length_cons, hall]

/-- An entry that is there is inserted without effect. -/
lemma insert_eq_self {m : SortedMap κ α} {k : κ} {v : α} (h : (k, v) ∈ m.toList) :
    m.insert k v = m := by
  refine eq_of_mem_iff fun x => ?_
  rw [mem_insert_iff]
  constructor
  · rintro (rfl | hx)
    · exact h
    · exact hx.1
  · intro hx
    by_cases hk : x.1 = k
    · subst hk
      exact .inl (Prod.ext rfl (value_unique hx h))
    · exact .inr ⟨hx, hk⟩

/-- An entry of the map stands beside those at the other keys. -/
lemma perm_of_mem [DecidableEq κ] {m : SortedMap κ α} {k : κ} {v : α} (h : (k, v) ∈ m.toList) :
    m.toList.Perm ((k, v) :: m.toList.filter fun x => x.1 ≠ k) := by
  have hinsert := m.perm_insert k v
  rwa [insert_eq_self h] at hinsert

/-- At a key in use an insertion makes no more entries. -/
lemma length_insert_of_mem {m : SortedMap κ α} {k : κ} {v : α} (h : (k, v) ∈ m.toList) (v' : α) :
    (m.insert k v').toList.length = m.toList.length := by
  classical
  rw [(m.perm_insert k v').length_eq, (perm_of_mem h).length_eq, List.length_cons,
    List.length_cons]

omit [Std.LawfulEqOrd κ] in
/-- A key above all others comes last. -/
lemma toList_insert_of_lt {m : SortedMap κ α} {k : κ} (h : ∀ x ∈ m.toList, compare x.1 k = .lt)
    (v : α) : (m.insert k v).toList = m.toList ++ [(k, v)] := by
  rw [toList_insert]
  revert h
  generalize m.toList = entries
  intro h
  induction entries with
  | nil => rfl
  | cons x rest ih =>
    obtain ⟨k', v'⟩ := x
    obtain ⟨hx, hrest⟩ := List.forall_mem_cons.1 h
    have hgt : compare k k' = .gt := Std.OrientedCmp.gt_iff_lt.2 hx
    rw [insertInto, hgt]
    simp only [ih hrest, List.cons_append]

end DirectoryExchange.SortedMap

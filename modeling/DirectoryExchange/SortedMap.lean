import Std.Data.TreeMap

/-!
# Sorted maps

A map is the list of its entries in strictly ascending order of their keys, so that two maps with
the same entries are equal.
-/

namespace DirectoryExchange

/-- A map from `κ` to `α`. -/
structure SortedMap (κ α : Type) [Ord κ] where
  /-- The entries. -/
  toList : List (κ × α)
  /-- Every key is below those behind it. -/
  sorted : toList.Pairwise fun x y => compare x.1 y.1 = .lt

namespace SortedMap

variable {κ α : Type} [Ord κ]

instance [DecidableEq κ] [DecidableEq α] : DecidableEq (SortedMap κ α) := fun m n =>
  decidable_of_iff (m.toList = n.toList) (by cases m; cases n; simp)

/-- The map without entries. -/
def empty : SortedMap κ α := ⟨[], .nil⟩

/-- The entries with that of a key put in its place. -/
def insertInto (k : κ) (v : α) : List (κ × α) → List (κ × α)
  | [] => [(k, v)]
  | (k', v') :: rest =>
    match compare k k' with
    | .lt => (k, v) :: (k', v') :: rest
    | .eq => (k, v) :: rest
    | .gt => (k', v') :: insertInto k v rest

/-- An insertion brings in nothing but the new entry. -/
theorem mem_of_mem_insertInto {k : κ} {v : α} {entries : List (κ × α)} {x : κ × α}
    (h : x ∈ insertInto k v entries) : x = (k, v) ∨ x ∈ entries := by
  induction entries with
  | nil => simpa [insertInto] using h
  | cons y rest ih =>
    obtain ⟨k', v'⟩ := y
    unfold insertInto at h
    split at h
    · simpa using h
    · rcases List.mem_cons.1 h with h | h
      · exact .inl h
      · exact .inr (List.mem_cons_of_mem _ h)
    · rcases List.mem_cons.1 h with h | h
      · exact .inr (by simp [h])
      · rcases ih h with h | h
        · exact .inl h
        · exact .inr (List.mem_cons_of_mem _ h)

/-- An insertion keeps the order of the keys. -/
theorem sorted_insertInto [Std.TransOrd κ] {k : κ} {v : α} {entries : List (κ × α)}
    (h : entries.Pairwise fun x y => compare x.1 y.1 = .lt) :
    (insertInto k v entries).Pairwise fun x y => compare x.1 y.1 = .lt := by
  induction entries with
  | nil => simp [insertInto]
  | cons y rest ih =>
    obtain ⟨k', v'⟩ := y
    obtain ⟨hy, hrest⟩ := List.pairwise_cons.1 h
    unfold insertInto
    split
    · next hlt =>
      refine List.pairwise_cons.2 ⟨fun x hx => ?_, h⟩
      rcases List.mem_cons.1 hx with rfl | hx
      · exact hlt
      · exact Std.TransCmp.lt_trans hlt (hy x hx)
    · next heq =>
      refine List.pairwise_cons.2 ⟨fun x hx => ?_, hrest⟩
      exact Std.TransCmp.lt_of_eq_of_lt heq (hy x hx)
    · next hgt =>
      refine List.pairwise_cons.2 ⟨fun x hx => ?_, ih hrest⟩
      rcases mem_of_mem_insertInto hx with rfl | hx
      · exact Std.OrientedCmp.gt_iff_lt.1 hgt
      · exact hy x hx

/-- The map with the value at the key. -/
def insert [Std.TransOrd κ] (m : SortedMap κ α) (k : κ) (v : α) : SortedMap κ α :=
  ⟨insertInto k v m.toList, sorted_insertInto m.sorted⟩

/-- The map with all these entries. -/
def insertAll [Std.TransOrd κ] (m : SortedMap κ α) (entries : List (κ × α)) : SortedMap κ α :=
  entries.foldl (fun m (k, v) => m.insert k v) m

/-- The map with only the entries of which `p` holds. -/
def filter (m : SortedMap κ α) (p : κ × α → Bool) : SortedMap κ α :=
  ⟨m.toList.filter p, m.sorted.filter p⟩

/-- The value at the key. -/
def get? [BEq κ] (m : SortedMap κ α) (k : κ) : Option α := m.toList.lookup k

/-- The map with the value at every key changed, in a way that may depend on the key. -/
def mapValues (m : SortedMap κ α) (f : κ → α → α) : SortedMap κ α :=
  ⟨m.toList.map fun (k, v) => (k, f k v), m.sorted.map _ fun _ _ h => h⟩

@[simp] theorem toList_empty : (empty : SortedMap κ α).toList = [] := rfl

@[simp] theorem toList_filter (m : SortedMap κ α) (p : κ × α → Bool) :
    (m.filter p).toList = m.toList.filter p := rfl

@[simp] theorem toList_insert [Std.TransOrd κ] (m : SortedMap κ α) (k : κ) (v : α) :
    (m.insert k v).toList = insertInto k v m.toList := rfl

@[simp] theorem toList_mapValues (m : SortedMap κ α) (f : κ → α → α) :
    (m.mapValues f).toList = m.toList.map fun (k, v) => (k, f k v) := rfl

@[ext] theorem ext {m n : SortedMap κ α} (h : m.toList = n.toList) : m = n := by
  cases m; cases n; simpa using h

/-! ### The value at a key -/

section Keys

variable [Std.LawfulEqOrd κ]

/-- Keys one below the other are different. -/
theorem compare_ne_of_lt {k k' : κ} (h : compare k k' = .lt) : k ≠ k' := by
  rintro rfl
  have hself : compare k k = .eq := Std.ReflCmp.compare_self
  rw [hself] at h
  exact absurd h (by decide)

theorem nodup_keys (m : SortedMap κ α) : (m.toList.map (·.1)).Nodup := by
  refine List.Pairwise.map _ ?_ m.sorted
  intro x y h
  exact compare_ne_of_lt h

omit [Ord κ] [Std.LawfulEqOrd κ] in
/-- In a list of entries with different keys, the first value at a key is the only one. -/
theorem lookup_eq_some_iff [BEq κ] [LawfulBEq κ] {entries : List (κ × α)}
    (hdistinct : (entries.map (·.1)).Nodup) {k : κ} {v : α} :
    entries.lookup k = some v ↔ (k, v) ∈ entries := by
  induction entries with
  | nil => simp
  | cons x rest ih =>
    obtain ⟨k', v'⟩ := x
    obtain ⟨hx, hrest⟩ := List.nodup_cons.1 hdistinct
    rw [List.lookup_cons, List.mem_cons, Prod.mk.injEq]
    by_cases hk : k = k'
    · subst hk
      rw [beq_self_eq_true]
      have hnot : (k, v) ∉ rest := fun h => hx (List.mem_map.2 ⟨_, h, rfl⟩)
      simp [hnot, eq_comm]
    · rw [beq_false_of_ne hk]
      simp [hk, ih hrest]

/-- The value at a key is the one that the map holds there. -/
theorem get?_eq_some_iff [BEq κ] [LawfulBEq κ] {m : SortedMap κ α} {k : κ} {v : α} :
    m.get? k = some v ↔ (k, v) ∈ m.toList :=
  lookup_eq_some_iff m.nodup_keys

theorem get?_isSome_iff [BEq κ] [LawfulBEq κ] {m : SortedMap κ α} {k : κ} :
    (m.get? k).isSome ↔ ∃ v, (k, v) ∈ m.toList := by
  rw [Option.isSome_iff_exists]
  simp only [get?_eq_some_iff]

/-- A choice among the keys leaves values at the chosen ones. -/
theorem get?_isSome_filter_iff [BEq κ] [LawfulBEq κ] {m : SortedMap κ α} {k : κ} (keep : κ → Bool) :
    ((m.filter fun x => keep x.1).get? k).isSome ↔ (m.get? k).isSome ∧ keep k = true := by
  simp only [get?_isSome_iff, toList_filter, List.mem_filter, exists_and_right]

end Keys

/-! ### What is in a map behind insertions -/

section Insert

variable [Std.LawfulEqOrd κ] [Std.TransOrd κ]

/-- In a sorted list the new entry takes the place of the one with its key. -/
theorem mem_insertInto_iff {k : κ} {v : α} {entries : List (κ × α)}
    (hsorted : entries.Pairwise fun x y => compare x.1 y.1 = .lt) {x : κ × α} :
    x ∈ insertInto k v entries ↔ x = (k, v) ∨ x ∈ entries ∧ x.1 ≠ k := by
  induction entries with
  | nil => simp [insertInto]
  | cons y rest ih =>
    obtain ⟨k', v'⟩ := y
    obtain ⟨hy, hrest⟩ := List.pairwise_cons.1 hsorted
    -- the place of the key is in front of the first key that is not smaller
    unfold insertInto
    split
    · next hlt =>
      have hothers : ∀ x ∈ (k', v') :: rest, x.1 ≠ k := by
        intro x hx
        rcases List.mem_cons.1 hx with rfl | hx
        · exact (compare_ne_of_lt hlt).symm
        · exact (compare_ne_of_lt (Std.TransCmp.lt_trans hlt (hy x hx))).symm
      rw [List.mem_cons]
      exact or_congr_right ⟨fun hx => ⟨hx, hothers x hx⟩, And.left⟩
    · next heq =>
      obtain rfl := Std.LawfulEqOrd.eq_of_compare heq
      have hothers : ∀ x ∈ rest, x.1 ≠ k := fun x hx => (compare_ne_of_lt (hy x hx)).symm
      rw [List.mem_cons, List.mem_cons]
      refine or_congr_right ⟨fun hx => ⟨.inr hx, hothers x hx⟩, ?_⟩
      rintro ⟨rfl | hx, hne⟩
      · exact absurd rfl hne
      · exact hx
    · next hgt =>
      have hne : k' ≠ k := compare_ne_of_lt (Std.OrientedCmp.gt_iff_lt.1 hgt)
      rw [List.mem_cons, ih hrest, List.mem_cons]
      constructor
      · rintro (rfl | rfl | ⟨hx, hxk⟩)
        · exact .inr ⟨.inl rfl, hne⟩
        · exact .inl rfl
        · exact .inr ⟨.inr hx, hxk⟩
      · rintro (rfl | ⟨rfl | hx, hxk⟩)
        · exact .inr (.inl rfl)
        · exact .inl rfl
        · exact .inr (.inr ⟨hx, hxk⟩)

/-- An insertion replaces what was at the key and leaves the rest. -/
theorem mem_insert_iff {m : SortedMap κ α} {k : κ} {v : α} {x : κ × α} :
    x ∈ (m.insert k v).toList ↔ x = (k, v) ∨ x ∈ m.toList ∧ x.1 ≠ k :=
  mem_insertInto_iff m.sorted

/-- Insertions at different keys replace what was there and leave the rest. -/
theorem mem_insertAll_iff {entries : List (κ × α)} (hdistinct : (entries.map (·.1)).Nodup)
    {m : SortedMap κ α} {x : κ × α} :
    x ∈ (m.insertAll entries).toList ↔
      x ∈ entries ∨ x ∈ m.toList ∧ x.1 ∉ entries.map (·.1) := by
  induction entries generalizing m with
  | nil => simp [insertAll]
  | cons y rest ih =>
    obtain ⟨hy, hrest⟩ := List.nodup_cons.1 hdistinct
    have hstep : m.insertAll (y :: rest) = (m.insert y.1 y.2).insertAll rest := rfl
    rw [hstep, ih hrest, mem_insert_iff, List.mem_cons, List.map_cons, List.mem_cons, not_or]
    constructor
    · rintro (hx | ⟨rfl | ⟨hx, hne⟩, hnot⟩)
      · exact .inl (.inr hx)
      · exact .inl (.inl rfl)
      · exact .inr ⟨hx, hne, hnot⟩
    · rintro ((rfl | hx) | ⟨hx, hne, hnot⟩)
      · exact .inr ⟨.inl rfl, hy⟩
      · exact .inl hx
      · exact .inr ⟨.inr ⟨hx, hne⟩, hnot⟩

variable [BEq κ] [LawfulBEq κ]

/-- Behind an insertion there are values at the keys that had one, and at that of the insertion. -/
theorem get?_isSome_insert_iff {m : SortedMap κ α} {k k' : κ} {v : α} :
    ((m.insert k v).get? k').isSome ↔ k' = k ∨ (m.get? k').isSome := by
  simp only [get?_isSome_iff, mem_insert_iff, Prod.mk.injEq]
  by_cases hk : k' = k
  · simp [hk]
  · simp [hk]

/-- Behind insertions there is something at the keys inserted, and at those in use before. -/
theorem get?_isSome_insertAll_iff {entries : List (κ × α)} {m : SortedMap κ α} {k : κ} :
    ((m.insertAll entries).get? k).isSome ↔ k ∈ entries.map (·.1) ∨ (m.get? k).isSome := by
  induction entries generalizing m with
  | nil => simp [insertAll]
  | cons y rest ih =>
    have hstep : m.insertAll (y :: rest) = (m.insert y.1 y.2).insertAll rest := rfl
    rw [hstep, ih, get?_isSome_insert_iff, List.map_cons, List.mem_cons, or_left_comm, or_assoc]

end Insert

end SortedMap

end DirectoryExchange

import DirectoryExchange.Directory.Basic
import DirectoryExchange.Proofs.SortedMap

/-!
# The entries of a directory

A directory is known by the entries at its paths (`occupied`), in the order of the paths, in which
what is above comes before what is below (`compare_of_isBelow`).
-/

namespace DirectoryExchange.Directory

/-! ### Paths -/

lemma isBelow_iff {path ancestor : Dn.Path} :
    isBelow path ancestor = true ↔ ancestor <+: path ∧ path ≠ ancestor := by
  rw [isBelow, Bool.and_eq_true, List.isPrefixOf_iff_prefix, bne_iff_ne]

/-- What is above comes before what is below. -/
theorem compare_of_isBelow {path ancestor : Dn.Path} (h : isBelow path ancestor = true) :
    compare ancestor path = .lt := by
  obtain ⟨⟨rest, rfl⟩, hne⟩ := isBelow_iff.1 h
  obtain ⟨key, rest, rfl⟩ := List.exists_cons_of_ne_nil (l := rest) (by
    rintro rfl
    exact hne (List.append_nil ancestor))
  have hbehind := Dn.compare_append_left ancestor [] (key :: rest)
  rwa [List.append_nil] at hbehind

/-- A path other than the root is no beginning of the one to its parent. -/
lemma not_prefix_dropLast {path : Dn.Path} (hpath : path ≠ []) : ¬ path <+: path.dropLast := by
  intro h
  have hlength := h.length_le
  rw [List.length_dropLast] at hlength
  have := List.length_pos_iff.2 hpath
  omega

/-! ### Entries by their paths -/

/-- The entries at their paths. -/
def occupied (d : Directory) : SortedMap Dn.Path StoredEntry where
  toList := d.nodes.toList.filterMap fun (path, node) => node.map (path, ·)
  sorted := by
    refine List.Pairwise.filterMap _ ?_ d.nodes.sorted
    intro x y hxy x' hx' y' hy'
    obtain ⟨held, -, rfl⟩ := Option.map_eq_some_iff.1 hx'
    obtain ⟨held', -, rfl⟩ := Option.map_eq_some_iff.1 hy'
    exact hxy

/-- The occupied places are the nodes with an entry. -/
lemma mem_occupied {d : Directory} {path : Dn.Path} {held : StoredEntry} :
    (path, held) ∈ d.occupied.toList ↔ (path, some held) ∈ d.nodes.toList := by
  rw [occupied, List.mem_filterMap]
  constructor
  · rintro ⟨⟨p, node⟩, hmem, heq⟩
    obtain ⟨held', rfl, hpair⟩ := Option.map_eq_some_iff.1 heq
    obtain ⟨rfl, rfl⟩ := Prod.mk.inj hpair
    exact hmem
  · exact fun hmem => ⟨_, hmem, rfl⟩

/-- The entry at a path is the one that the directory has there. -/
theorem entryAt?_eq_some_iff {d : Directory} {path : Dn.Path} {held : StoredEntry} :
    d.entryAt? path = some held ↔ (path, held) ∈ d.occupied.toList := by
  rw [entryAt?, Option.join_eq_some_iff, SortedMap.get?_eq_some_iff, mem_occupied]

@[simp] lemma entryAt?_empty (path : Dn.Path) : empty.entryAt? path = none := rfl

/-- There is an entry at a path if the path is occupied. -/
lemma entryAt?_isSome_iff {d : Directory} {path : Dn.Path} :
    (d.entryAt? path).isSome ↔ ∃ held, (path, held) ∈ d.occupied.toList := by
  rw [Option.isSome_iff_exists]
  simp only [entryAt?_eq_some_iff]

/-- An entry that is put at a path is what is there, and elsewhere there is what there was. -/
lemma entryAt?_of_occupied {d d' : Directory} {path : Dn.Path} {held : StoredEntry}
    (h : d'.occupied = d.occupied.insert path held) (p : Dn.Path) :
    d'.entryAt? p = if p = path then some held else d.entryAt? p := by
  refine Option.ext fun s => ?_
  rw [entryAt?_eq_some_iff, h, SortedMap.mem_insert_iff, Prod.mk.injEq]
  split
  · next hp => simp [hp, eq_comm]
  · next hp => simp [hp, entryAt?_eq_some_iff]

/-- What is stored stands at the occupied places, in their order. -/
lemma stored_eq (d : Directory) : d.stored = d.occupied.toList.map (·.2) := by
  have hnode : ∀ node : Dn.Path × Option StoredEntry,
      (node.2.map (node.1, ·)).map (·.2) = node.2 := by
    rintro ⟨path, node⟩
    cases node <;> rfl
  rw [stored, occupied, List.map_filterMap]
  simp only [hnode]

/-! ### Nodes -/

lemma hasNodeAt_iff {d : Directory} {p : Dn.Path} :
    d.hasNodeAt p = true ↔ p = [] ∨ ∃ node, (p, node) ∈ d.nodes.toList :=
  Nodes.hasAt_iff_mem

@[simp] lemma hasNodeAt_nil (d : Directory) : d.hasNodeAt [] = true := rfl

/-- Whatever is above a node is a node. -/
lemma hasNodeAt_of_isPrefix {d : Directory} {path p : Dn.Path} (h : d.hasNodeAt path = true)
    (hp : p <+: path) : d.hasNodeAt p = true :=
  d.tree path p hp h

lemma hasNodeAt_of_entryAt? {d : Directory} {path : Dn.Path} {held : StoredEntry}
    (h : d.entryAt? path = some held) : d.hasNodeAt path = true :=
  hasNodeAt_iff.2 (.inr ⟨_, mem_occupied.1 (entryAt?_eq_some_iff.1 h)⟩)

/-- Whatever is above an entry is a node. -/
lemma hasNodeAt_of_entry {d : Directory} {path p : Dn.Path} (h : (d.entryAt? path).isSome)
    (hp : p <+: path) : d.hasNodeAt p = true := by
  obtain ⟨held, hheld⟩ := Option.isSome_iff_exists.1 h
  exact hasNodeAt_of_isPrefix (hasNodeAt_of_entryAt? hheld) hp

@[ext] lemma ext {d d' : Directory} (h : d.nodes = d'.nodes) : d = d' := by
  cases d
  cases d'
  congr

end DirectoryExchange.Directory

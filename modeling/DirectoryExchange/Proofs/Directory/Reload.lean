import DirectoryExchange.Proofs.Directory.Entries
import DirectoryExchange.Proofs.Transfer.Success

/-!
# Adding entries in order

Entries that come in the order of their paths, and of which each has its parent among them or no
ancestor at all, can be added to an empty directory one after the other: what has been added so far
always leaves a free place for the next one (`takes_adds`).
-/

namespace DirectoryExchange.Directory

/-- Whether the parent of every entry is an entry, or no ancestor is. -/
def Grounded (d : Directory) : Prop :=
  ∀ path held, d.entryAt? path = some held →
    (d.entryAt? path.dropLast).isSome ∨ ∀ p, isBelow path p = true → d.entryAt? p = none

/-- What that says of the entries one by one. -/
lemma Holds.grounded_iff {d : Directory} {placed : List (Dn.Path × Entry)} (h : d.Holds placed) :
    d.Grounded ↔ ∀ x ∈ placed,
      (∃ y ∈ placed, y.1 = x.1.dropLast) ∨ ∀ y ∈ placed, isBelow x.1 y.1 = false := by
  have hnothing : ∀ path, (∀ p, isBelow path p = true → d.entryAt? p = none) ↔
      ∀ y ∈ placed, isBelow path y.1 = false := by
    intro path
    constructor
    · intro hnone y hy
      rw [Bool.eq_false_iff]
      intro hbelow
      have hsome := h.entryAt?_isSome_iff.2 ⟨y, hy, rfl⟩
      rw [hnone y.1 hbelow] at hsome
      exact absurd hsome Bool.false_ne_true
    · intro hall p hp
      rw [← Option.not_isSome_iff_eq_none, h.entryAt?_isSome_iff]
      rintro ⟨y, hy, rfl⟩
      rw [hall y hy] at hp
      exact Bool.false_ne_true hp
  simp only [Grounded, entryAt?_eq_some_iff, h.mem_occupied_iff, h.entryAt?_isSome_iff, hnothing]
  constructor
  · intro hgrounded x hx
    exact hgrounded x.1 (asStored x.2) ⟨x.2, hx, rfl⟩
  · rintro hall path held ⟨e, hmem, rfl⟩
    exact hall (path, e) hmem

/-- Entries with their paths that can be added in order. -/
structure Addable (placed : List (Dn.Path × Entry)) : Prop where
  /-- The paths are in order. -/
  sorted : placed.Pairwise fun x y => compare x.1 y.1 = .lt
  /-- No entry is at the root. -/
  path_ne : ∀ x ∈ placed, x.1 ≠ []
  /-- The names give the paths. -/
  addressed : ∀ x ∈ placed, Dn.path? x.2.dn = some x.1
  /-- There is no white space around the names. -/
  trimmed : ∀ x ∈ placed, Blank.Trimmed x.2.dn
  /-- Every entry has its parent among the others, or no ancestor. -/
  grounded : ∀ x ∈ placed,
    (∃ y ∈ placed, y.1 = x.1.dropLast) ∨ ∀ y ∈ placed, isBelow x.1 y.1 = false

/-- A path is below its parent. -/
lemma isBelow_dropLast {path : Dn.Path} (h : path ≠ []) : isBelow path path.dropLast = true := by
  refine isBelow_iff.2 ⟨List.dropLast_prefix path, ?_⟩
  intro heq
  have hlength := congrArg List.length heq
  rw [List.length_dropLast] at hlength
  have := List.length_pos_iff.2 h
  omega

/-- Behind the entries that come before it, there is a free place for an entry. -/
lemma Addable.free {before behind : List (Dn.Path × Entry)} {path : Dn.Path} {e : Entry}
    (h : Addable (before ++ (path, e) :: behind)) {d : Directory} (hd : d.Holds before) :
    d.Free path := by
  obtain ⟨-, hsorted, hbetween⟩ := List.pairwise_append.1 h.sorted
  have hmem : (path, e) ∈ before ++ (path, e) :: behind := by simp
  have hnone : ∀ p, (∀ x ∈ before, x.1 ≠ p) → d.entryAt? p = none := by
    intro p hp
    rw [← Option.not_isSome_iff_eq_none, hd.entryAt?_isSome_iff]
    rintro ⟨x, hx, hxp⟩
    exact hp x hx hxp
  refine ⟨h.path_ne _ hmem, ?_, ?_⟩
  · refine hnone path ?_
    intro x hx
    exact SortedMap.compare_ne_of_lt (hbetween x hx _ List.mem_cons_self)
  · rcases h.grounded _ hmem with ⟨y, hy, hparent⟩ | hnothing
    · refine .inl (hd.entryAt?_isSome_iff.2 ⟨y, ?_, hparent⟩)
      have hlt : compare y.1 path = .lt := by
        rw [hparent]
        exact compare_of_isBelow (isBelow_dropLast (h.path_ne _ hmem))
      -- what is not before the entry is not above it
      rcases List.mem_append.1 hy with hy | hy
      · exact hy
      rcases List.mem_cons.1 hy with rfl | hy
      · exact absurd rfl (SortedMap.compare_ne_of_lt hlt)
      · have hgt := List.rel_of_pairwise_cons hsorted hy
        exact absurd rfl (SortedMap.compare_ne_of_lt (Std.TransCmp.lt_trans hlt hgt))
    · refine .inr fun p hp => hnone p ?_
      rintro x hx rfl
      have := hnothing x (List.mem_append_left _ hx)
      rw [hp] at this
      exact absurd this (by decide)

/-- The next entry is added behind those that came before. -/
lemma Addable.add {before behind : List (Dn.Path × Entry)} {path : Dn.Path} {e : Entry}
    (h : Addable (before ++ (path, e) :: behind)) {d : Directory} (hd : d.Holds before) :
    ∃ d', d.add e.dn e.attributes = .ok d' ∧
      d'.Holds (before ++ [(path, e)]) := by
  have hmem : (path, e) ∈ before ++ (path, e) :: behind := by simp
  obtain ⟨-, -, hbetween⟩ := List.pairwise_append.1 h.sorted
  have hroot : d.entryAt? [] = none := by
    rw [Option.eq_none_iff_forall_ne_some]
    intro held hheld
    rw [entryAt?_eq_some_iff, hd.mem_occupied_iff] at hheld
    obtain ⟨e, hmem, -⟩ := hheld
    exact h.path_ne _ (List.mem_append_left _ hmem) rfl
  have hpath : Dn.path? e.dn = some path := h.addressed _ hmem
  have htrimmed : Blank.trim e.dn = e.dn := h.trimmed (path, e) hmem
  have hadd : d.add e.dn e.attributes = .ok _ :=
    (add_eq_ok_iff hroot).2 ⟨path, hpath, h.free hd, rfl⟩
  refine ⟨_, hadd, ?_⟩
  have hlast : ∀ x ∈ d.occupied.toList, compare x.1 path = .lt := by
    intro x hx
    rw [hd] at hx
    obtain ⟨y, hy, rfl⟩ := List.mem_map.1 hx
    exact hbetween y hy _ List.mem_cons_self
  rw [Holds, occupied_putEntry, SortedMap.toList_insert_of_lt hlast, hd, htrimmed,
    List.map_append]
  rfl

/-- Entries that can be added in order are all taken, and then the directory holds them. -/
theorem takes_adds {before behind : List (Dn.Path × Entry)} (h : Addable (before ++ behind))
    {d : Directory} (hd : d.Holds before) :
    ∃ d', Transfer.Takes connection d (behind.map fun x => .add x.2) d' ∧
      d'.Holds (before ++ behind) := by
  induction behind generalizing before d with
  | nil => exact ⟨d, .nil d, by rwa [List.append_nil]⟩
  | cons x behind ih =>
    obtain ⟨path, e⟩ := x
    obtain ⟨next, hadd, hnext⟩ := h.add hd
    rw [List.append_cons] at h
    obtain ⟨d', htakes, hd'⟩ := ih h hnext
    refine ⟨d', .cons ?_ htakes, by rwa [List.append_cons]⟩
    simp only [connection, apply, hadd]

/-- A directory that takes sound changes stays sound. -/
lemma Sound.of_takes {d d' : Directory} {records : List ChangeRecord} (h : d.Sound)
    (htakes : Transfer.Takes connection d records d') : d'.Sound := by
  induction htakes with
  | nil => exact h
  | @cons d next _ record _ hfirst _ ih =>
    refine ih ?_
    rcases connection_apply_snd d record with hsame | happly
    · rw [hfirst] at hsame
      obtain rfl : next = d := hsame
      exact h
    · rw [hfirst] at happly
      exact h.apply happly

/-- An empty directory takes them. -/
theorem takes_adds_empty {placed : List (Dn.Path × Entry)} (h : Addable placed) :
    ∃ d', Transfer.Takes connection empty (placed.map fun x => .add x.2) d' ∧ d'.Holds placed ∧
      d'.Sound := by
  have hempty : empty.Holds [] := rfl
  have hplaced : Addable ([] ++ placed) := h
  obtain ⟨d', htakes, hd'⟩ := takes_adds hplaced hempty
  exact ⟨d', htakes, hd', sound_empty.of_takes htakes⟩

/-- The entries of a directory can be added in order if it has them where their names say, and none
below a gap.  So can others of the same names. -/
theorem addable_of_grounded {d : Directory} (h : d.Sound) (haddressed : d.Addressed)
    (hgrounded : d.Grounded) {placed : List (Dn.Path × Entry)} (hplaced : d.Holds placed)
    {f : Entry → Entry} (hf : ∀ e, (f e).dn = e.dn) :
    Addable (placed.map fun x => (x.1, f x.2)) := by
  have hkept : ∀ x ∈ placed, Kept x.1 (asStored x.2) := fun x hx =>
    h _ _ (hplaced.mem_occupied_iff.2 ⟨x.2, hx, rfl⟩)
  refine ⟨?_, ?_, ?_, ?_, ?_⟩
  · have hsorted := d.occupied.sorted
    rw [hplaced, List.pairwise_map] at hsorted
    rw [List.pairwise_map]
    exact hsorted
  · intro y hy
    obtain ⟨x, hx, rfl⟩ := List.mem_map.1 hy
    exact (hkept x hx).path_ne
  · intro y hy
    obtain ⟨x, hx, rfl⟩ := List.mem_map.1 hy
    rw [hf]
    exact hplaced.addressed_iff.1 haddressed x hx
  · intro y hy
    obtain ⟨x, hx, rfl⟩ := List.mem_map.1 hy
    rw [hf]
    exact (hkept x hx).trimmed
  · intro y hy
    obtain ⟨x, hx, rfl⟩ := List.mem_map.1 hy
    rcases hplaced.grounded_iff.1 hgrounded x hx with ⟨parent, hmem, hparent⟩ | hnothing
    · exact .inl ⟨_, List.mem_map.2 ⟨parent, hmem, rfl⟩, hparent⟩
    · refine .inr ?_
      intro z hz
      obtain ⟨w, hw, rfl⟩ := List.mem_map.1 hz
      exact hnothing w hw

end DirectoryExchange.Directory

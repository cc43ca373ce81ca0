import DirectoryExchange.Directory.Change
import DirectoryExchange.Proofs.Directory.Basic
import DirectoryExchange.Proofs.Traversal

/-!
# What changes do

Each kind of change is described once by what it has found when it succeeds and by the entries that
the directory holds behind it.  Nothing else is said of the steps of a change elsewhere.
-/

namespace DirectoryExchange.Directory

/-! ### Names of places -/

/-- A name is accepted for a place exactly if it gives a path. -/
lemma pathOf_eq_ok_iff {dn : String} {path : Dn.Path} :
    pathOf dn = .ok path ↔ Dn.path? dn = some path := by
  unfold pathOf
  split <;> simp [*]

/-- A name is accepted for an entry exactly if it gives a path other than the root. -/
lemma entryPathOf_eq_ok_iff {dn : String} {path : Dn.Path} :
    entryPathOf dn = .ok path ↔ Dn.path? dn = some path ∧ path ≠ [] := by
  rw [entryPathOf, bind_eq_ok_iff]
  simp only [pathOf_eq_ok_iff]
  constructor
  · rintro ⟨p, hp, h⟩
    split at h
    · simp at h
    · next hne =>
      obtain rfl : p = path := by simpa [pure, Except.pure] using h
      exact ⟨hp, by simpa using hne⟩
  · rintro ⟨hp, hne⟩
    refine ⟨path, hp, ?_⟩
    rw [if_neg (by simpa using hne)]
    rfl

/-! ### Adding -/

/-- Glue holds no entries. -/
@[simp] lemma occupied_pave (d : Directory) (path : Dn.Path) :
    (d.pave path).occupied = d.occupied := by
  refine SortedMap.eq_of_mem_iff ?_
  rintro ⟨p, held⟩
  rw [mem_occupied, mem_occupied, pave, Nodes.mem_pave_iff]
  simp

/-- The entry is put at its place among the others. -/
lemma occupied_putEntry (d : Directory) (path : Dn.Path) (held : StoredEntry) :
    (d.putEntry path held).occupied = d.occupied.insert path held := by
  refine SortedMap.eq_of_mem_iff ?_
  rintro ⟨p, s⟩
  have hput : (p, some s) ∈ (d.putEntry path held).nodes.toList ↔ p = path ∧ some s = some held ∨
      (p, some s) ∈ (d.pave path.dropLast).nodes.toList ∧ p ≠ path :=
    Nodes.mem_put_iff
  rw [mem_occupied, hput, ← mem_occupied, occupied_pave, SortedMap.mem_insert_iff, Prod.mk.injEq,
    Option.some.injEq]

/-- Where an entry can be added: no entry is there, and its parent is an entry unless nothing above
it is. -/
structure Free (d : Directory) (path : Dn.Path) : Prop where
  /-- The place is below the root. -/
  ne : path ≠ []
  /-- No entry is there. -/
  vacant : d.entryAt? path = none
  /-- There is a parent, or nothing above. -/
  grounded : (d.entryAt? path.dropLast).isSome ∨ ∀ p, isBelow path p = true → d.entryAt? p = none

/-- The ancestors of a place are the root and the beginnings of the path to its parent. -/
lemma isBelow_iff_of_ne_nil {path p : Dn.Path} (hp : p ≠ []) :
    isBelow path p = true ↔ p ∈ Dn.beginnings path.dropLast := by
  rw [isBelow_iff, Dn.mem_beginnings]
  constructor
  · rintro ⟨⟨rest, rfl⟩, hne⟩
    have hrest : rest ≠ [] := fun hnil => hne (by rw [hnil, List.append_nil])
    rw [List.dropLast_append_of_ne_nil hrest]
    exact ⟨hp, List.prefix_append _ _⟩
  · rintro ⟨-, hbegins⟩
    refine ⟨hbegins.trans (List.dropLast_prefix path), ?_⟩
    rintro rfl
    have hlength := hbegins.length_le
    rw [List.length_dropLast] at hlength
    have := List.length_pos_iff.2 hp
    omega

/-- Whether there is no entry right above the place, although there is one further up. -/
def Orphaned (d : Directory) (path : Dn.Path) : Prop :=
  d.entryAt? path.dropLast = none ∧ ∃ p, isBelow path p = true ∧ (d.entryAt? p).isSome

/-- What is looked at to find out. -/
lemma orphaned_iff {d : Directory} (hroot : d.entryAt? [] = none) {path : Dn.Path} :
    ((d.entryAt? path.dropLast).isNone &&
        (Dn.beginnings path.dropLast).any fun p => (d.entryAt? p).isSome) = true ↔
      d.Orphaned path := by
  rw [Bool.and_eq_true, Option.isNone_iff_eq_none, List.any_eq_true, Orphaned]
  refine and_congr_right fun _ => ?_
  constructor
  · rintro ⟨p, hp, hentry⟩
    exact ⟨p, (isBelow_iff_of_ne_nil (Dn.mem_beginnings.1 hp).1).2 hp, hentry⟩
  · rintro ⟨p, hp, hentry⟩
    have hne : p ≠ [] := by
      rintro rfl
      rw [hroot] at hentry
      cases hentry
    exact ⟨p, (isBelow_iff_of_ne_nil hne).1 hp, hentry⟩

/-- An entry can be added if its parent is an entry, or nothing above it is. -/
lemma not_orphaned_iff {d : Directory} {path : Dn.Path} : ¬ d.Orphaned path ↔
    (d.entryAt? path.dropLast).isSome ∨ ∀ p, isBelow path p = true → d.entryAt? p = none := by
  rw [Orphaned, ← Option.not_isSome_iff_eq_none, Classical.not_and_iff_not_or_not,
    Classical.not_not]
  simp only [not_exists, not_and, Option.not_isSome_iff_eq_none]

/-- An entry is added exactly where there is a free place for it, and nothing else changes. -/
theorem add_eq_ok_iff {d d' : Directory} {dn : String} {attributes : List Attribute}
    (hroot : d.entryAt? [] = none) :
    d.add dn attributes = .ok d' ↔ ∃ path, Dn.path? dn = some path ∧ d.Free path ∧
      d' = d.putEntry path ⟨Blank.trim dn, .ofAttributes attributes⟩ := by
  rw [add, bind_eq_ok_iff]
  simp only [entryPathOf_eq_ok_iff]
  constructor
  · rintro ⟨path, ⟨hpath, hne⟩, h⟩
    split at h
    · simp at h
    next hgrounded =>
    split at h
    · simp at h
    next hvacant =>
    refine ⟨path, hpath, ⟨hne, by simpa using hvacant, ?_⟩, (Except.ok.inj h).symm⟩
    rwa [orphaned_iff hroot, not_orphaned_iff] at hgrounded
  · rintro ⟨path, hpath, ⟨hne, hvacant, hgrounded⟩, rfl⟩
    refine ⟨path, ⟨hpath, hne⟩, ?_⟩
    rw [← not_orphaned_iff, ← orphaned_iff hroot] at hgrounded
    rw [if_neg hgrounded, hvacant]
    rfl

/-- An entry is added where none is, whatever else the directory may hold. -/
lemma add_eq_ok {d d' : Directory} {dn : String} {attributes : List Attribute}
    (h : d.add dn attributes = .ok d') : ∃ path, Dn.path? dn = some path ∧
      d.entryAt? path = none ∧
        d' = d.putEntry path ⟨Blank.trim dn, .ofAttributes attributes⟩ := by
  rw [add, bind_eq_ok_iff] at h
  simp only [entryPathOf_eq_ok_iff] at h
  obtain ⟨path, ⟨hpath, -⟩, h⟩ := h
  split at h
  · simp at h
  split at h
  · simp at h
  next hvacant =>
  exact ⟨path, hpath, by simpa using hvacant, (Except.ok.inj h).symm⟩

/-! ### Deleting and modifying -/

/-- In what is taken out there is no entry, and elsewhere there is what there was. -/
lemma entryAt?_prune (d : Directory) (path p : Dn.Path) :
    (d.prune path).entryAt? p = if path <+: p then none else d.entryAt? p := by
  refine Option.ext fun s => ?_
  rw [entryAt?_eq_some_iff, mem_occupied, prune, Nodes.mem_prune_iff]
  split
  · next hp => simp [hp]
  · next hp => simp [hp, entryAt?_eq_some_iff, mem_occupied]

/-- Where nothing is below a place, no node goes on behind it. -/
lemma isPrefix_iff_of_leaf {d : Directory} {path : Dn.Path}
    (hleaf : ∀ x ∈ d.nodes.toList, isBelow x.1 path = false) {x : Dn.Path × Option StoredEntry}
    (hx : x ∈ d.nodes.toList) : path <+: x.1 ↔ x.1 = path := by
  constructor
  · refine fun hbegins => Decidable.byContradiction fun hne => ?_
    have hbelow := hleaf x hx
    rw [isBelow_iff.2 ⟨hbegins, hne⟩] at hbelow
    cases hbelow
  · exact fun heq => heq ▸ List.prefix_refl x.1

/-- Where nothing is below a place, nothing but what is there is taken out. -/
lemma entryAt?_prune_of_leaf {d : Directory} {path : Dn.Path}
    (hleaf : ∀ x ∈ d.nodes.toList, isBelow x.1 path = false) (p : Dn.Path) :
    (d.prune path).entryAt? p = if p = path then none else d.entryAt? p := by
  rw [entryAt?_prune]
  cases hheld : d.entryAt? p with
  | none => simp
  | some held =>
    have hmem := mem_occupied.1 (entryAt?_eq_some_iff.1 hheld)
    simp only [isPrefix_iff_of_leaf hleaf hmem]

/-- An entry is deleted where it is found with nothing below it. -/
theorem delete_eq_ok_iff {d d' : Directory} {dn : String} :
    d.delete dn = .ok d' ↔ ∃ path held, Dn.path? dn = some path ∧ path ≠ [] ∧
      d.entryAt? path = some held ∧ (∀ x ∈ d.nodes.toList, isBelow x.1 path = false) ∧
      d' = d.prune path := by
  rw [delete, bind_eq_ok_iff]
  simp only [entryPathOf_eq_ok_iff]
  constructor
  · rintro ⟨path, ⟨hpath, hne⟩, h⟩
    split at h
    · simp at h
    next hthere =>
    split at h
    · simp at h
    next hleaf =>
    rw [Bool.not_eq_true, Option.isNone_eq_false_iff, Option.isSome_iff_exists] at hthere
    obtain ⟨held, hheld⟩ := hthere
    exact ⟨path, held, hpath, hne, hheld, by simpa using hleaf, (Except.ok.inj h).symm⟩
  · rintro ⟨path, held, hpath, hne, hheld, hleaf, rfl⟩
    refine ⟨path, ⟨hpath, hne⟩, ?_⟩
    rw [hheld, if_neg (by simp), if_neg (by simpa using hleaf)]
    rfl

/-- An entry is deleted where it is found, and nothing else changes. -/
theorem delete_eq_ok {d d' : Directory} {dn : String} (h : d.delete dn = .ok d') :
    ∃ path, Dn.path? dn = some path ∧
      ∀ p held, (p, held) ∈ d'.occupied.toList ↔ (p, held) ∈ d.occupied.toList ∧ p ≠ path := by
  obtain ⟨path, -, hpath, -, -, hleaf, rfl⟩ := delete_eq_ok_iff.1 h
  refine ⟨path, hpath, ?_⟩
  intro p held
  rw [← entryAt?_eq_some_iff, ← entryAt?_eq_some_iff, entryAt?_prune_of_leaf hleaf]
  split
  · next hp => simp [hp]
  · next hp => simp [hp]

/-- An entry is modified where it is found. -/
theorem modify_eq_ok_iff {d d' : Directory} {dn : String} {steps : List Modification} :
    d.modify dn steps = .ok d' ↔ ∃ path held attributes, Dn.path? dn = some path ∧
      d.entryAt? path = some held ∧ held.attributes.applyAll steps = .ok attributes ∧
      d' = d.putEntry path { held with attributes } := by
  rw [modify, bind_eq_ok_iff]
  simp only [pathOf_eq_ok_iff]
  constructor
  · rintro ⟨path, hpath, h⟩
    split at h
    · simp at h
    next held hheld =>
    obtain ⟨attributes, happly, h⟩ := bind_eq_ok_iff.1 h
    exact ⟨path, held, attributes, hpath, hheld, happly, (Except.ok.inj h).symm⟩
  · rintro ⟨path, held, attributes, hpath, hheld, happly, rfl⟩
    refine ⟨path, hpath, ?_⟩
    rw [hheld]
    exact bind_eq_ok_iff.2 ⟨attributes, happly, rfl⟩

/-- An entry is modified where it is found, and nothing else changes. -/
theorem modify_eq_ok {d d' : Directory} {dn : String} {steps : List Modification}
    (h : d.modify dn steps = .ok d') :
    ∃ path held attributes, Dn.path? dn = some path ∧ (path, held) ∈ d.occupied.toList ∧
      held.attributes.applyAll steps = .ok attributes ∧
      d'.occupied = d.occupied.insert path { held with attributes } := by
  obtain ⟨path, held, attributes, hpath, hheld, happly, rfl⟩ := modify_eq_ok_iff.1 h
  exact ⟨path, held, attributes, hpath, entryAt?_eq_some_iff.1 hheld, happly,
    occupied_putEntry d path _⟩

end DirectoryExchange.Directory

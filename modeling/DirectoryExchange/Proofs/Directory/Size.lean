import DirectoryExchange.Proofs.Directory.Tree
import Mathlib.Data.List.Nodup

/-!
# The number of entries

An entry that is added is one more, one that is deleted is one less, and a modification or a change
that is rejected leaves their number as it was (`size_apply`).  So does a rename, unless a child of
the renamed entry comes to a place at or below which there are entries: these are lost
(`displaced`).
-/

namespace DirectoryExchange.Directory

/-! ### Counting -/

/-- The places of the entries. -/
def places (d : Directory) : List Dn.Path := d.occupied.toList.map (·.1)

/-- The places of a directory are those with an entry. -/
lemma mem_places_iff {d : Directory} {p : Dn.Path} : p ∈ d.places ↔ (d.entryAt? p).isSome := by
  rw [places, List.mem_map, entryAt?_isSome_iff]
  exact ⟨fun ⟨⟨_, held⟩, hmem, hp⟩ => ⟨held, hp ▸ hmem⟩, fun ⟨_, hmem⟩ => ⟨_, hmem, rfl⟩⟩

lemma nodup_places (d : Directory) : d.places.Nodup := d.occupied.nodup_keys

lemma size_eq_length (d : Directory) : d.size = d.occupied.toList.length := by
  rw [size, stored_eq, List.length_map]

lemma size_eq_length_places (d : Directory) : d.size = d.places.length := by
  rw [size_eq_length, places, List.length_map]

/-! ### Adding, deleting and modifying -/

section Single

variable {d d' : Directory} {dn : String}

/-- An addition makes one more. -/
lemma size_add (hroot : d.entryAt? [] = none) {attributes : List Attribute}
    (h : d.add dn attributes = .ok d') : d'.size = d.size + 1 := by
  obtain ⟨path, -, hfree, rfl⟩ := (add_eq_ok_iff hroot).1 h
  rw [size_eq_length, size_eq_length, occupied_putEntry]
  refine SortedMap.length_insert_of_not_mem ?_ _
  rintro ⟨p, held⟩ hheld rfl
  rw [← entryAt?_eq_some_iff, hfree.vacant] at hheld
  exact absurd hheld (Option.some_ne_none held).symm

/-- A deletion makes one less. -/
lemma size_delete (h : d.delete dn = .ok d') : d'.size + 1 = d.size := by
  obtain ⟨path, held, -, -, hheld, hleaf, rfl⟩ := delete_eq_ok_iff.1 h
  have hthere : path ∈ d.places := mem_places_iff.2 (by rw [hheld]; rfl)
  have hrest : (d.prune path).places.Perm (d.places.erase path) := by
    refine (List.perm_ext_iff_of_nodup (nodup_places _) (d.nodup_places.erase path)).2 fun p => ?_
    rw [d.nodup_places.mem_erase_iff, mem_places_iff, mem_places_iff,
      entryAt?_prune_of_leaf hleaf]
    by_cases hp : p = path
    · simp [hp]
    · simp [hp]
  rw [size_eq_length_places, size_eq_length_places, hrest.length_eq,
    List.length_erase_add_one hthere]

/-- A modification leaves the number as it was. -/
lemma size_modify {steps : List Modification} (h : d.modify dn steps = .ok d') :
    d'.size = d.size := by
  obtain ⟨path, held, attributes, -, hheld, -, hoccupied⟩ := modify_eq_ok h
  rw [size_eq_length, size_eq_length, hoccupied]
  exact SortedMap.length_insert_of_mem hheld _

end Single

/-! ### Renaming -/

section Transplant

variable {d : Directory} {path newPath : Dn.Path}

/-- The entries that are lost when the node at `path` goes to `newPath`: those from elsewhere that a
child of the node overruns. -/
def displaced (d : Directory) (path newPath : Dn.Path) : List StoredEntry :=
  (d.nodes.toList.filter fun (p, _) =>
    !path.isPrefixOf p && d.overruns path newPath p).filterMap (·.2)

/-- The displaced entries are those outside the subtree that its children overrun. -/
lemma length_displaced (d : Directory) (path newPath : Dn.Path) :
    (d.displaced path newPath).length =
      d.places.countP fun p => !path.isPrefixOf p && d.overruns path newPath p := by
  rw [displaced, places, occupied, List.length_filterMap_eq_countP, List.countP_filter,
    List.countP_map, List.countP_filterMap]
  refine List.countP_congr ?_
  rintro ⟨p, node⟩ -
  cases node <;> simp

/-- The entries that are not in the subtree that moves are overrun or stay. -/
lemma size_eq_add (d : Directory) (path newPath : Dn.Path) :
    d.size = d.places.countP (path.isPrefixOf ·) +
      (d.places.countP (fun p => !path.isPrefixOf p && !d.overruns path newPath p) +
        (d.displaced path newPath).length) := by
  rw [size_eq_length_places, length_displaced]
  induction d.places with
  | nil => rfl
  | cons p rest ih =>
    simp only [List.countP_cons, List.length_cons, ih]
    cases path.isPrefixOf p <;> cases d.overruns path newPath p <;> simp <;> omega

variable {held : StoredEntry} (hheld : d.entryAt? path = some held)
  (hvacant : newPath ≠ path → d.entryAt? newPath = none) (top : StoredEntry)
include hheld hvacant

/-- Behind a move there are entries where those of the subtree come to, and where others stay. -/
lemma perm_places_transplant : (d.transplant path newPath top).places.Perm
    ((d.places.filter (path.isPrefixOf ·)).map (fun p => newPath ++ p.drop path.length) ++
      d.places.filter fun p => !path.isPrefixOf p && !d.overruns path newPath p) := by
  have hmoved : ∀ p, p ∈ (d.places.filter (path.isPrefixOf ·)).map
      (fun p => newPath ++ p.drop path.length) ↔
        ∃ q, (d.entryAt? (path ++ q)).isSome ∧ p = newPath ++ q := by
    intro p
    simp only [List.mem_map, List.mem_filter, List.isPrefixOf_iff_prefix, mem_places_iff]
    constructor
    · rintro ⟨_, ⟨hentry, q, rfl⟩, rfl⟩
      exact ⟨q, hentry, by rw [List.drop_left]⟩
    · rintro ⟨q, hentry, rfl⟩
      exact ⟨path ++ q, ⟨hentry, List.prefix_append path q⟩, by rw [List.drop_left]⟩
  have hstays : ∀ p, (!path.isPrefixOf p && !d.overruns path newPath p) = true ↔
      d.Stays path newPath p := by
    intro p
    rw [Stays, Bool.and_eq_true, Bool.not_eq_true', Bool.not_eq_true', Bool.eq_false_iff,
      Bool.eq_false_iff, Ne, List.isPrefixOf_iff_prefix]
  -- neither side has a place twice, and so only the places are to be compared
  refine (List.perm_ext_iff_of_nodup (nodup_places _) (List.nodup_append.2 ⟨?_, ?_, ?_⟩)).2 ?_
  · refine List.Nodup.map_on (fun p hp p' hp' heq => ?_) (d.nodup_places.filter _)
    obtain ⟨q, rfl⟩ := List.isPrefixOf_iff_prefix.1 (List.mem_filter.1 hp).2
    obtain ⟨q', rfl⟩ := List.isPrefixOf_iff_prefix.1 (List.mem_filter.1 hp').2
    simpa only [List.drop_left, List.append_cancel_left_eq] using heq
  · exact d.nodup_places.filter _
  · rintro p hp p' hp' rfl
    obtain ⟨q, hentry, heq⟩ := (hmoved p).1 hp
    obtain ⟨hthere, hp'⟩ := List.mem_filter.1 hp'
    exact ne_of_stays hvacant (mem_places_iff.1 hthere) ((hstays p).1 hp')
      (.inr (hasNodeAt_of_entry hentry (List.prefix_refl _))) heq
  · intro p
    rw [List.mem_append, hmoved, List.mem_filter, hstays, mem_places_iff, mem_places_iff]
    exact entryAt?_transplant_isSome_iff hvacant top hheld

/-- A move loses the entries that are overrun, and no others. -/
theorem size_transplant :
    (d.transplant path newPath top).size + (d.displaced path newPath).length = d.size := by
  have hlength := (perm_places_transplant hheld hvacant top).length_eq
  rw [List.length_append, List.length_map, ← List.countP_eq_length_filter,
    ← List.countP_eq_length_filter] at hlength
  rw [size_eq_length_places, hlength, size_eq_add d path newPath, Nat.add_assoc]

end Transplant

section Rename

variable {d : Directory} {path newPath : Dn.Path}

/-- Whether a rename takes the entry at `path` to `newPath`. -/
def Moves (d : Directory) (dn : String) (rename : Rename) (path newPath : Dn.Path) : Prop :=
  ∃ rdn parentPath parentDn, Dn.path? dn = some path ∧ Dn.parseRdn? rename.newRdn = some rdn ∧
    d.newParent dn path rename = .ok (parentPath, parentDn) ∧
    newPath = parentPath ++ [Dn.Rdn.key rdn]

/-- A rename takes an entry to one place only. -/
lemma Moves.unique {dn : String} {rename : Rename} {path' newPath' : Dn.Path}
    (hmoves : d.Moves dn rename path newPath) (hmoves' : d.Moves dn rename path' newPath') :
    path' = path ∧ newPath' = newPath := by
  obtain ⟨rdn, parentPath, parentDn, hpath, hrdn, hparent, rfl⟩ := hmoves
  obtain ⟨rdn', parentPath', parentDn', hpath', hrdn', hparent', rfl⟩ := hmoves'
  obtain rfl := Option.some.inj (hpath.symm.trans hpath')
  obtain rfl := Option.some.inj (hrdn.symm.trans hrdn')
  obtain ⟨rfl, rfl⟩ := Prod.mk.inj (Except.ok.inj (hparent.symm.trans hparent'))
  exact ⟨rfl, rfl⟩

/-- A rename loses the displaced entries and no others. -/
lemma size_rename {d' : Directory} {dn : String} {rename : Rename}
    (h : d.rename dn rename = .ok d') :
    ∃ path newPath, d.Moves dn rename path newPath ∧
      d'.size + (d.displaced path newPath).length = d.size := by
  obtain ⟨path, held, rdn, parentPath, parentDn, attributes, hpath, -, hheld, hrdn, hparent,
    hvacant, -, rfl⟩ := exists_transplant_of_rename h
  exact ⟨path, _, ⟨rdn, parentPath, parentDn, hpath, hrdn, hparent, rfl⟩,
    size_transplant hheld hvacant _⟩

end Rename

/-! ### Changes -/

/-- Whatever has been asked for before, a change adds one entry, takes one away or leaves their
number as it is, but for the entries that a rename loses. -/
theorem size_apply (records : List ChangeRecord) (record : ChangeRecord) :
    let d := empty.after records
    match connection.apply d record with
    | (.error _, d') => d'.size = d.size
    | (.ok _, d') =>
      match record with
      | .add _ => d'.size = d.size + 1
      | .delete _ _ => d'.size + 1 = d.size
      | .modify _ _ _ _ => d'.size = d.size
      | .rename dn rename _ => ∃ path newPath, d.Moves dn rename path newPath ∧
          d'.size + (d.displaced path newPath).length = d.size := by
  intro d
  rw [connection_apply]
  cases happly : d.apply record with
  | error e => rfl
  | ok d' =>
    cases record with
    | add e => exact size_add (sound_after records).entryAt?_nil happly
    | delete dn _ => exact size_delete happly
    | modify dn steps _ _ => exact size_modify happly
    | rename dn rename _ => exact size_rename happly

/-- An entry is lost when an entry with a child goes to a place where only glue is, with a child of
the same name and that entry below it. -/
theorem entry_lost_below_glue :
    let low : Entry := ⟨"cn=y,ou=x,dc=b", [⟨"cn", [[0x79]], by decide, by decide⟩],
      by decide, by decide⟩
    let high : Entry := ⟨"dc=a", [⟨"dc", [[0x61]], by decide, by decide⟩], by decide, by decide⟩
    let child : Entry := ⟨"ou=x,dc=a", [⟨"ou", [[0x78]], by decide, by decide⟩],
      by decide, by decide⟩
    let move : Rename := ⟨"dc=b", false, none, by decide, by decide⟩
    let d := empty.after [.add low, .add high, .add child]
    let d' := (connection.apply d (.rename "dc=a" move (by decide))).2
    (connection.apply d (.rename "dc=a" move (by decide))).1 = .ok () ∧
      d.size = 3 ∧ d'.size = 2 ∧ low ∈ d.entries ∧ low ∉ d'.entries := by
  decide +kernel

end DirectoryExchange.Directory

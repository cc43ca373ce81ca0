import DirectoryExchange.Proofs.Directory.AttributeBag
import DirectoryExchange.Proofs.Directory.Changes
import DirectoryExchange.Proofs.Dn.Join

/-!
# What a rename does

A rename takes a subtree from one place to another.  Behind it every entry of the directory is the
renamed one, or comes from below it and has been given a new name, or was elsewhere and has not
been touched (`Renamed`).
-/

namespace DirectoryExchange.Directory

/-! ### Subtrees -/

/-- What stands in a subtree stands in the directory behind the path of the subtree. -/
lemma mem_subtreeAt {d : Directory} {path q : Dn.Path} {node : Option StoredEntry} :
    (q, node) ∈ (d.subtreeAt path).nodes.toList ↔ (path ++ q, node) ∈ d.nodes.toList :=
  Nodes.mem_subtreeAt

@[simp] lemma entryAt?_subtreeAt (d : Directory) (path q : Dn.Path) :
    (d.subtreeAt path).entryAt? q = d.entryAt? (path ++ q) := by
  refine Option.ext fun held => ?_
  rw [entryAt?_eq_some_iff, entryAt?_eq_some_iff, mem_occupied, mem_occupied, mem_subtreeAt]

/-- An entry at a place in the subtree under its new name. -/
def underNewName (subtree : Directory) (top : String) (q : Dn.Path) (held : StoredEntry) :
    StoredEntry :=
  match rebasedDn? subtree top q.reverse with
  | some dn => { held with dn }
  | none => held

/-- At the top of a rebased subtree is the renamed entry; below it everything is where it was, under
its new name. -/
lemma mem_rebase {subtree : Directory} {top : StoredEntry} {q : Dn.Path}
    {node : Option StoredEntry} : (q, node) ∈ (subtree.rebase top).nodes.toList ↔
      (q = [] ∧ node = some top ∧ ∃ old, ([], old) ∈ subtree.nodes.toList) ∨
        (q ≠ [] ∧ ∃ old, (q, old) ∈ subtree.nodes.toList ∧
          node = old.map (underNewName subtree top.dn q)) := by
  rw [rebase, mapNodes, SortedMap.toList_mapValues, List.mem_map]
  constructor
  · rintro ⟨⟨p, old⟩, hmem, heq⟩
    cases p with
    | nil =>
      obtain ⟨rfl, rfl⟩ := Prod.mk.inj heq
      exact .inl ⟨rfl, rfl, old, hmem⟩
    | cons key p =>
      obtain ⟨rfl, rfl⟩ := Prod.mk.inj heq
      exact .inr ⟨List.cons_ne_nil _ _, old, hmem, rfl⟩
  · rintro (⟨rfl, rfl, old, hmem⟩ | ⟨hne, old, hmem, rfl⟩)
    · exact ⟨_, hmem, rfl⟩
    · obtain ⟨key, q, rfl⟩ := List.exists_cons_of_ne_nil hne
      exact ⟨_, hmem, rfl⟩

/-- New names do not make or take away nodes. -/
@[simp] lemma hasNodeAt_rebase (subtree : Directory) (top : StoredEntry) (q : Dn.Path) :
    (subtree.rebase top).hasNodeAt q = subtree.hasNodeAt q :=
  Bool.eq_iff_iff.2 (Nodes.hasAt_mapValues _)

/-! ### Renaming -/

/-- What holds between a directory and what it becomes when the entry at `path` goes to `newPath`,
where it is `top`. -/
structure Renamed (d d' : Directory) (path newPath : Dn.Path) (top : StoredEntry) : Prop where
  /-- There was an entry. -/
  found : (d.entryAt? path).isSome
  /-- The entry is at its new place. -/
  moved : (newPath, top) ∈ d'.occupied.toList
  /-- So is every entry from below it. -/
  below : ∀ q held, q ≠ [] → (path ++ q, held) ∈ d.occupied.toList →
    (newPath ++ q, underNewName (d.subtreeAt path) top.dn q held) ∈ d'.occupied.toList
  /-- There is nothing else but what was elsewhere before. -/
  cases : ∀ p held, (p, held) ∈ d'.occupied.toList →
    (p = newPath ∧ held = top) ∨
      (∃ q old, q ≠ [] ∧ (path ++ q, old) ∈ d.occupied.toList ∧ p = newPath ++ q ∧
        held = underNewName (d.subtreeAt path) top.dn q old) ∨
      (p, held) ∈ d.occupied.toList

/-- The entries behind a move are those of the subtree with their new names at their new places,
and some of those there were. -/
lemma mem_occupied_transplant {d : Directory} {path newPath p : Dn.Path} {top s : StoredEntry}
    (h : (p, s) ∈ (d.transplant path newPath top).occupied.toList) :
    (∃ q, (q, some s) ∈ ((d.subtreeAt path).rebase top).nodes.toList ∧ p = newPath ++ q) ∨
      (p, s) ∈ d.occupied.toList := by
  rcases Nodes.mem_graft_iff.1 (mem_occupied.1 h) with hmoved | ⟨⟨hmem, -⟩, -⟩
  · exact .inl hmoved
  · have hkept : (p, s) ∈ ((d.prune path).pave newPath).occupied.toList := mem_occupied.2 hmem
    rw [occupied_pave, mem_occupied] at hkept
    exact .inr (mem_occupied.2 (Nodes.mem_prune_iff.1 hkept).1)

/-- A transplanted subtree leaves behind it what a rename should. -/
lemma renamed_transplant {d : Directory} {path newPath : Dn.Path} {held : StoredEntry}
    (hheld : (path, held) ∈ d.occupied.toList) (top : StoredEntry) :
    Renamed d (d.transplant path newPath top) path newPath top := by
  have hmoved : ∀ {q s}, (q, some s) ∈ ((d.subtreeAt path).rebase top).nodes.toList →
      (newPath ++ q, s) ∈ (d.transplant path newPath top).occupied.toList :=
    fun hmem => mem_occupied.2 (Nodes.mem_graft_iff.2 (.inl ⟨_, hmem, rfl⟩))
  have hroot : ∃ old, ([], old) ∈ (d.subtreeAt path).nodes.toList := by
    refine ⟨some held, mem_subtreeAt.2 ?_⟩
    rw [List.append_nil]
    exact mem_occupied.1 hheld
  refine ⟨entryAt?_isSome_iff.2 ⟨held, hheld⟩, ?_, ?_, ?_⟩
  · have htop := hmoved (mem_rebase.2 (.inl ⟨rfl, rfl, hroot⟩))
    rwa [List.append_nil] at htop
  · intro q old hne hold
    have hin := mem_subtreeAt.2 (mem_occupied.1 hold)
    exact hmoved (mem_rebase.2 (.inr ⟨hne, some old, hin, rfl⟩))
  · intro p s hmem
    rcases mem_occupied_transplant hmem with ⟨q, hq, rfl⟩ | hkept
    · rcases mem_rebase.1 hq with ⟨rfl, htop, -⟩ | ⟨hne, old, hold, hs⟩
      · exact .inl ⟨List.append_nil _, Option.some.inj htop⟩
      · obtain ⟨old, rfl, hnew⟩ := Option.map_eq_some_iff.1 hs.symm
        exact .inr (.inl ⟨q, old, hne, mem_occupied.2 (mem_subtreeAt.1 hold), rfl, hnew.symm⟩)
    · exact .inr (.inr hkept)

/-! ### The values of relative names -/

/-- To take the values of a name away leaves the attributes valid. -/
lemma valid_removeRdnValues {rdn : Dn.Rdn} (hrdn : ∀ ava ∈ rdn, ava.type ≠ "") {b : AttributeBag}
    (h : b.Valid) : (removeRdnValues b rdn).Valid := by
  rw [removeRdnValues]
  induction rdn generalizing b with
  | nil => exact h
  | cons ava rdn ih =>
    obtain ⟨hava, hrdn⟩ := List.forall_mem_cons.1 hrdn
    rw [List.foldl_cons]
    refine ih hrdn ?_
    split
    · exact h
    · next values hvalues =>
      obtain ⟨b', hdelete⟩ :=
        AttributeBag.delete_filter hvalues fun v => v.sameIgnoringCase ava.value
      rw [hdelete]
      exact h.delete hava hdelete

/-- To give the values of a name leaves the attributes valid. -/
lemma valid_addRdnValues {rdn : Dn.Rdn} (hrdn : ∀ ava ∈ rdn, ava.type ≠ "") {b : AttributeBag}
    (h : b.Valid) : (addRdnValues b rdn).Valid := by
  rw [addRdnValues]
  induction rdn generalizing b with
  | nil => exact h
  | cons ava rdn ih =>
    obtain ⟨hava, hrdn⟩ := List.forall_mem_cons.1 hrdn
    rw [List.foldl_cons]
    refine ih hrdn ?_
    split
    · exact h
    · exact h.add hava (List.cons_ne_nil _ _)

/-! ### The new parent -/

/-- The new parent is named by a text that gives its path, and by that text as it is trimmed. -/
theorem exists_parent_of_newParent {d : Directory} {dn : String} {path : Dn.Path}
    (hpath : Dn.path? dn = some path) (hne : path ≠ []) {rename : Rename} {parentPath : Dn.Path}
    {parentDn : String} (h : d.newParent dn path rename = .ok (parentPath, parentDn)) :
    ∃ parent, parentDn = Blank.trim parent ∧ Dn.path? parent = some parentPath := by
  unfold newParent at h
  split at h
  · obtain ⟨rfl, rfl⟩ := Prod.mk.inj (Except.ok.inj h)
    obtain ⟨rdns, hrdns, rfl⟩ := Option.map_eq_some_iff.1 hpath
    obtain ⟨rdn, rdns, rfl⟩ := List.exists_cons_of_ne_nil (l := rdns) (by rintro rfl; exact hne rfl)
    have hdropLast : (Dn.pathOf (rdn :: rdns)).dropLast = Dn.pathOf rdns := by
      rw [Dn.pathOf, Dn.pathOf, List.map_cons, List.reverse_cons, List.dropLast_concat]
    rw [hdropLast]
    obtain ⟨first, -, -, -, -, ⟨rfl, -, hsplit⟩ | ⟨parent, -, -, hparent, hsplit⟩⟩ :=
      Dn.splitFirst_of_parse? hrdns
    · exact ⟨"", by rw [hsplit]; rfl, rfl⟩
    · exact ⟨parent, by rw [hsplit]; rfl, by rw [Dn.path?, hparent]; rfl⟩
  · next superior _ =>
    obtain ⟨superiorPath, hsuperior, h⟩ := bind_eq_ok_iff.1 h
    split at h
    · simp at h
    split at h
    · obtain ⟨rfl, rfl⟩ := Prod.mk.inj (Except.ok.inj h)
      exact ⟨superior, rfl, pathOf_eq_ok_iff.1 hsuperior⟩
    · simp at h

/-! ### Renames that succeed -/

/-- What a rename that succeeds has found, and what it does. -/
structure RenameStep (d d' : Directory) (dn : String) (rename : Rename) where
  /-- Where the entry was. -/
  path : Dn.Path
  /-- The entry as it was. -/
  held : StoredEntry
  /-- The new relative name. -/
  rdn : Dn.Rdn
  /-- The place of the new parent. -/
  parentPath : Dn.Path
  /-- The name of the new parent. -/
  parentDn : String
  /-- The attributes of the entry behind the rename. -/
  attributes : AttributeBag
  /-- The name gives the place. -/
  path_eq : Dn.path? dn = some path
  /-- The place is below the root. -/
  path_ne : path ≠ []
  /-- The entry is there. -/
  mem_held : (path, held) ∈ d.occupied.toList
  /-- The new relative name is one. -/
  rdn_eq : Dn.parseRdn? rename.newRdn = some rdn
  /-- The new parent is found. -/
  parent_eq : d.newParent dn path rename = .ok (parentPath, parentDn)
  /-- The entry stays where it is, or no entry is at its new place. -/
  vacant : parentPath ++ [Dn.Rdn.key rdn] ≠ path →
    d.entryAt? (parentPath ++ [Dn.Rdn.key rdn]) = none
  /-- The attributes make an entry if they did before. -/
  valid : held.attributes.Valid → attributes.Valid
  /-- The subtree is taken to its new place. -/
  renamed : Renamed d d' path (parentPath ++ [Dn.Rdn.key rdn])
    ⟨joinDn rename.newRdn parentDn, attributes⟩

/-- The new parent of a rename is known by a name that gives its path. -/
lemma RenameStep.exists_parent {d d' : Directory} {dn : String} {rename : Rename}
    (step : RenameStep d d' dn rename) :
    ∃ parent, step.parentDn = Blank.trim parent ∧ Dn.path? parent = some step.parentPath :=
  exists_parent_of_newParent step.path_eq step.path_ne step.parent_eq

/-- The attributes of an entry behind a rename: without the values of the old relative name, if
these are to go, and with those of the new one. -/
def renamedAttributes (b : AttributeBag) (rename : Rename) (old new : Dn.Rdn) : AttributeBag :=
  addRdnValues (if rename.deleteOldRdn then removeRdnValues b old else b) new

/-- A renamed entry has valid attributes if it had so before. -/
lemma valid_renamedAttributes {rename : Rename} {old new : Dn.Rdn}
    (hold : ∀ ava ∈ old, ava.type ≠ "") (hnew : ∀ ava ∈ new, ava.type ≠ "") {b : AttributeBag}
    (h : b.Valid) : (renamedAttributes b rename old new).Valid := by
  refine valid_addRdnValues hnew ?_
  split
  · exact valid_removeRdnValues hold h
  · exact h

/-- A rename that succeeds has found an entry, a new name for it and a free place, to which it has
taken the subtree. -/
theorem transplant_of_rename {d d' : Directory} {dn : String} {rename : Rename}
    (h : d.rename dn rename = .ok d') :
    ∃ path held old above new parentPath parentDn, Dn.path? dn = some path ∧ path ≠ [] ∧
      Dn.parse? dn = some (old :: above) ∧ d.entryAt? path = some held ∧
      Dn.parseRdn? rename.newRdn = some new ∧
      d.newParent dn path rename = .ok (parentPath, parentDn) ∧
      (parentPath ++ [Dn.Rdn.key new] ≠ path →
        d.entryAt? (parentPath ++ [Dn.Rdn.key new]) = none) ∧
      d' = d.transplant path (parentPath ++ [Dn.Rdn.key new])
        ⟨joinDn rename.newRdn parentDn, renamedAttributes held.attributes rename old new⟩ := by
  rw [Directory.rename, bind_eq_ok_iff] at h
  obtain ⟨path, hpath, h⟩ := h
  obtain ⟨hpath, hne⟩ := entryPathOf_eq_ok_iff.1 hpath
  obtain ⟨rdns, hrdns, hkeys⟩ := Option.map_eq_some_iff.1 hpath
  obtain ⟨old, above, rfl⟩ := List.exists_cons_of_ne_nil (l := rdns) (by
    rintro rfl
    exact hne hkeys.symm)
  split at h
  · simp at h
  next held hheld =>
  split at h
  · simp at h
  next new hnew =>
  obtain ⟨⟨parentPath, parentDn⟩, hparent, h⟩ := bind_eq_ok_iff.1 h
  simp only [hrdns] at h
  split at h
  · simp at h
  next hvacant =>
  refine ⟨path, held, old, above, new, parentPath, parentDn, hpath, hne, hrdns, hheld, hnew,
    hparent, ?_, (Except.ok.inj h).symm⟩
  intro hmoves
  by_contra hsome
  exact hvacant ⟨hmoves, Option.isSome_iff_ne_none.2 hsome⟩

/-- In short: a subtree is taken to another place, and its top makes an entry if it did before. -/
lemma exists_transplant_of_rename {d d' : Directory} {dn : String} {rename : Rename}
    (h : d.rename dn rename = .ok d') :
    ∃ path held rdn parentPath parentDn attributes, Dn.path? dn = some path ∧ path ≠ [] ∧
      d.entryAt? path = some held ∧ Dn.parseRdn? rename.newRdn = some rdn ∧
      d.newParent dn path rename = .ok (parentPath, parentDn) ∧
      (parentPath ++ [Dn.Rdn.key rdn] ≠ path →
        d.entryAt? (parentPath ++ [Dn.Rdn.key rdn]) = none) ∧
      (held.attributes.Valid → attributes.Valid) ∧
      d' = d.transplant path (parentPath ++ [Dn.Rdn.key rdn])
        ⟨joinDn rename.newRdn parentDn, attributes⟩ := by
  obtain ⟨path, held, old, above, new, parentPath, parentDn, hpath, hne, hrdns, hheld, hnew,
    hparent, hvacant, rfl⟩ := transplant_of_rename h
  exact ⟨path, held, new, parentPath, parentDn, _, hpath, hne, hheld, hnew, hparent, hvacant,
    valid_renamedAttributes (Dn.type_ne_of_mem_parse? hrdns List.mem_cons_self)
      (Dn.type_ne_of_parseRdn? hnew), rfl⟩

/-- A rename that succeeds has found all it needs. -/
theorem rename_eq_ok {d d' : Directory} {dn : String} {rename : Rename}
    (h : d.rename dn rename = .ok d') : Nonempty (RenameStep d d' dn rename) := by
  obtain ⟨path, held, rdn, parentPath, parentDn, attributes, hpath, hne, hheld, hrdn, hparent,
    hvacant, hvalid, rfl⟩ := exists_transplant_of_rename h
  have hmem := entryAt?_eq_some_iff.1 hheld
  exact ⟨path, held, rdn, parentPath, parentDn, attributes, hpath, hne, hmem, hrdn, hparent,
    hvacant, hvalid, renamed_transplant hmem _⟩

end DirectoryExchange.Directory

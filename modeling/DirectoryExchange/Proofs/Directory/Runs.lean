import DirectoryExchange.Proofs.Directory.Rename
import DirectoryExchange.Proofs.Dn.Join

/-!
# Directories over runs of changes

A directory is reached from the empty one by changes, of which it rejects some.  Whatever they are,
its entries have names without white space around them and attributes that make an entry
(`sound_after`).
-/

namespace DirectoryExchange.Directory

/-- The directory behind changes that are asked for one after the other. -/
def after (d : Directory) (records : List ChangeRecord) : Directory :=
  records.foldl (fun d record => (connection.apply d record).2) d

/-- How an entry is kept. -/
structure Kept (path : Dn.Path) (held : StoredEntry) : Prop where
  /-- It is not at the root. -/
  path_ne : path ≠ []
  /-- It has a name. -/
  dn_ne : held.dn ≠ ""
  /-- There is no white space around its name. -/
  trimmed : Blank.Trimmed held.dn
  /-- Its attributes make an entry. -/
  valid : held.attributes.Valid

/-- Whether all entries are kept as they should be. -/
def Sound (d : Directory) : Prop :=
  ∀ path held, (path, held) ∈ d.occupied.toList → Kept path held

lemma Sound.entryAt?_nil {d : Directory} (h : d.Sound) : d.entryAt? [] = none := by
  rw [Option.eq_none_iff_forall_ne_some]
  intro held hheld
  exact (h [] held (entryAt?_eq_some_iff.1 hheld)).path_ne rfl

/-! ### New names -/

/-- A name that is joined from a text and a trimmed parent has no white space around it. -/
lemma trimmed_joinDn {rdn parent : String} (h : Blank.Trimmed parent) :
    Blank.Trimmed (joinDn rdn parent) := by
  unfold joinDn
  split
  · exact Blank.trimmed_trim rdn
  · exact (Blank.trimmed_trim rdn).join h

/-- A name that is joined from a text that is not blank is not empty. -/
lemma joinDn_ne {rdn parent : String} (h : Blank.trim rdn ≠ "") : joinDn rdn parent ≠ "" := by
  unfold joinDn
  split
  · exact h
  · intro hempty
    simpa using congrArg String.toList hempty

/-- A relative name that is split off has no white space around it. -/
lemma trimmed_splitFirst (dn : String) : Blank.Trimmed (Dn.splitFirst dn).1 :=
  Blank.trimmed_trim _

/-- A new name below one that is trimmed and not empty is so, too. -/
lemma rebasedDn?_eq_some {subtree : Directory} {top dn : String} {place : Dn.Path}
    (htop : Blank.Trimmed top) (hne : top ≠ "") (h : rebasedDn? subtree top place = some dn) :
    Blank.Trimmed dn ∧ dn ≠ "" := by
  induction place generalizing dn with
  | nil =>
    obtain rfl := Option.some.inj h
    exact ⟨htop, hne⟩
  | cons key above ih =>
    rw [rebasedDn?] at h
    split at h
    · simp at h
    · next held _ =>
      obtain ⟨above', habove, rfl⟩ := Option.map_eq_some_iff.1 h
      refine ⟨(trimmed_splitFirst held.dn).join (ih habove).1, ?_⟩
      intro hempty
      simpa using congrArg String.toList hempty

/-- What is kept of an entry below a renamed one is kept under its new name. -/
lemma Kept.underNewName {path newPath q : Dn.Path} {held : StoredEntry} (h : Kept path held)
    (hnew : newPath ≠ []) {subtree : Directory} {top : String} (htop : Blank.Trimmed top)
    (hne : top ≠ "") : Kept newPath (underNewName subtree top q held) := by
  unfold Directory.underNewName
  split
  · next dn hdn =>
    obtain ⟨htrimmed, hdn⟩ := rebasedDn?_eq_some htop hne hdn
    exact ⟨hnew, hdn, htrimmed, h.valid⟩
  · exact ⟨hnew, h.dn_ne, h.trimmed, h.valid⟩

/-! ### Steps -/

/-- To add an entry leaves a directory sound. -/
lemma Sound.add {d d' : Directory} (h : d.Sound) {e : Entry}
    (hadd : d.add e.dn e.attributes = .ok d') : d'.Sound := by
  obtain ⟨path, hpath, hfree, rfl⟩ := (add_eq_ok_iff h.entryAt?_nil).1 hadd
  intro p held hheld
  rw [occupied_putEntry, SortedMap.mem_insert_iff] at hheld
  rcases hheld with hnew | ⟨hold, -⟩
  · obtain ⟨rfl, rfl⟩ := Prod.mk.inj hnew
    exact ⟨hfree.ne, Dn.trim_ne_of_path? hpath hfree.ne, Blank.trimmed_trim e.dn,
      AttributeBag.valid_ofAttributes e⟩
  · exact h p held hold

/-- To delete an entry leaves a directory sound. -/
lemma Sound.delete {d d' : Directory} (h : d.Sound) {dn : String}
    (hdelete : d.delete dn = .ok d') : d'.Sound := by
  obtain ⟨path, -, hmem⟩ := delete_eq_ok hdelete
  intro p held hheld
  exact h p held ((hmem p held).1 hheld).1

/-- To modify an entry leaves a directory sound. -/
lemma Sound.modify {d d' : Directory} (h : d.Sound) {dn : String} {steps : List Modification}
    (hmodify : d.modify dn steps = .ok d') : d'.Sound := by
  obtain ⟨path, old, attributes, -, hold, happly, hoccupied⟩ := modify_eq_ok hmodify
  intro p held hheld
  rw [hoccupied, SortedMap.mem_insert_iff] at hheld
  rcases hheld with hnew | ⟨hother, -⟩
  · obtain ⟨rfl, rfl⟩ := Prod.mk.inj hnew
    obtain ⟨hpath, hdn, htrimmed, hvalid⟩ := h p old hold
    exact ⟨hpath, hdn, htrimmed, hvalid.applyAll happly⟩
  · exact h p held hother

/-- To rename an entry leaves a directory sound. -/
lemma Sound.rename {d d' : Directory} (h : d.Sound) {dn : String} {rename : Rename}
    (hrename : d.rename dn rename = .ok d') : d'.Sound := by
  obtain ⟨step⟩ := rename_eq_ok hrename
  have hnew : ∀ q : Dn.Path, step.parentPath ++ [Dn.Rdn.key step.rdn] ++ q ≠ [] := by simp
  obtain ⟨parent, hparent, -⟩ := step.exists_parent
  have htrimmed : Blank.Trimmed (joinDn rename.newRdn step.parentDn) := by
    rw [hparent]
    exact trimmed_joinDn (Blank.trimmed_trim parent)
  have hne : joinDn rename.newRdn step.parentDn ≠ "" :=
    joinDn_ne (Dn.trim_ne_of_parseRdn? step.rdn_eq)
  intro p held hheld
  rcases step.renamed.cases p held hheld with ⟨rfl, rfl⟩ | ⟨q, old, -, hold, rfl, rfl⟩ | hother
  · exact ⟨by simp, hne, htrimmed, step.valid (h _ _ step.mem_held).valid⟩
  · exact (h _ old hold).underNewName (hnew q) htrimmed hne
  · exact h p held hother

/-- A change that succeeds leaves a sound directory. -/
theorem Sound.apply {d d' : Directory} (h : d.Sound) {record : ChangeRecord}
    (happly : d.apply record = .ok d') : d'.Sound := by
  cases record with
  | add e => exact h.add happly
  | delete dn _ => exact h.delete happly
  | modify dn steps _ _ => exact h.modify happly
  | rename dn rename _ => exact h.rename happly

/-! ### Runs -/

/-- A change is answered by its success or by its error, behind which the directory is as it was. -/
lemma connection_apply (d : Directory) (record : ChangeRecord) :
    connection.apply d record =
      match d.apply record with
      | .ok d' => (.ok (), d')
      | .error e => (.error (.directory e), d) := rfl

/-- The directory behind a change is the one before it or the changed one. -/
lemma connection_apply_snd (d : Directory) (record : ChangeRecord) :
    (connection.apply d record).2 = d ∨ d.apply record = .ok (connection.apply d record).2 := by
  rw [connection]
  simp only
  split
  · next h => exact .inr h
  · exact .inl rfl

/-- An accepted change has changed the directory. -/
lemma apply_of_accepted {d d' : Directory} {record : ChangeRecord}
    (h : connection.apply d record = (.ok (), d')) : d.apply record = .ok d' := by
  rw [connection_apply] at h
  split at h
  · next heq => rw [heq, (Prod.mk.inj h).2]
  · exact absurd (Prod.mk.inj h).1 (by simp)

/-- Whether a change is accepted is told by its answer. -/
lemma accepted_of_fst {d : Directory} {record : ChangeRecord}
    (h : (connection.apply d record).1 = .ok ()) :
    connection.apply d record = (.ok (), (connection.apply d record).2) :=
  Prod.ext h rfl

/-- Whatever has been asked for, the directory is sound. -/
theorem Sound.after {d : Directory} (h : d.Sound) (records : List ChangeRecord) :
    (d.after records).Sound := by
  induction records generalizing d with
  | nil => exact h
  | cons record records ih =>
    have hstep : (connection.apply d record).2.Sound := by
      rcases connection_apply_snd d record with hsame | happly
      · rw [hsame]
        exact h
      · exact h.apply happly
    exact ih hstep

lemma sound_empty : empty.Sound := fun _ _ h => absurd h List.not_mem_nil

/-- Whatever changes a directory has been through, it is sound. -/
theorem sound_after (records : List ChangeRecord) : (empty.after records).Sound :=
  sound_empty.after records

/-- A run goes one record further by applying that record. -/
lemma after_take_succ {records : List ChangeRecord} {n : Nat} {record : ChangeRecord}
    (h : records[n]? = some record) (d : Directory) :
    d.after (records.take (n + 1)) = (connection.apply (d.after (records.take n)) record).2 := by
  rw [after, after, List.take_add_one, h, Option.toList_some, List.foldl_append]
  rfl

/-- If what a change has to be for it to keep a property is known, then over a run of changes the
property holds all the time exactly as long as every change that is carried out is so. -/
theorem forall_after_take_iff {motive : Directory → Prop} {keeps : Directory → ChangeRecord → Prop}
    (hempty : motive empty)
    (hstep : ∀ records d' record, motive (empty.after records) →
      (empty.after records).apply record = .ok d' →
        (motive d' ↔ keeps (empty.after records) record))
    (records : List ChangeRecord) :
    (∀ n, motive (empty.after (records.take n))) ↔
      ∀ n record, records[n]? = some record →
        (∃ d', (empty.after (records.take n)).apply record = .ok d') →
        keeps (empty.after (records.take n)) record := by
  constructor
  · rintro h n record hrecord ⟨d', happly⟩
    have hnext : empty.after (records.take (n + 1)) = d' := by
      rw [after_take_succ hrecord, connection_apply, happly]
    refine (hstep _ _ _ (h n) happly).1 ?_
    rw [← hnext]
    exact h (n + 1)
  · intro h n
    -- a refused change leaves the directory: only accepted ones have to keep the property
    induction n with
    | zero => exact hempty
    | succ n ih =>
      cases hrecord : records[n]? with
      | none =>
        rw [List.take_add_one, hrecord, Option.toList_none, List.append_nil]
        exact ih
      | some record =>
        rw [after_take_succ hrecord]
        rcases connection_apply_snd (empty.after (records.take n)) record with hsame | happly
        · rw [hsame]
          exact ih
        · exact (hstep _ _ _ ih happly).2 (h n record hrecord ⟨_, happly⟩)

end DirectoryExchange.Directory

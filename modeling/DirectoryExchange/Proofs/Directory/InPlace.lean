import DirectoryExchange.Directory.InPlace
import DirectoryExchange.Proofs.Directory.Tree

/-!
# Changes that leave no trace

A change in place that fails on the way has not changed anything (`unchanged_of_rejected`): where an
entry cannot be added there was a way to its place already, modifications are carried out on a copy,
and behind the step that takes out a subtree nothing fails.  So changes in place and changes as a
whole are the same (`runSteps_applyInPlace`).
-/

namespace DirectoryExchange

namespace AttributeBag

/-- Modifications one after the other give the bag behind all of them, or the error of the first
that fails. -/
lemma applyAll_eq (b : AttributeBag) (steps : List Modification) :
    b.applyAll steps =
      match b.applyEach steps with
      | (.ok _, b') => .ok b'
      | (.error e, _) => .error e := by
  induction steps generalizing b with
  | nil => rfl
  | cons m steps ih =>
    rw [applyAll, applyEach]
    cases hstep : b.apply m with
    | mk result b' =>
      cases result with
      | error e => rfl
      | ok u => exact ih b'

end AttributeBag

namespace Directory

/-! ### Running steps -/

section Run

variable {α β : Type}

/-- Steps are run one after the other, up to the first that fails, and what has been changed by then
stays changed. -/
lemma runSteps_bind (x : Steps α) (f : α → Steps β) (d : Directory) :
    runSteps (x >>= f) d =
      match runSteps x d with
      | (.ok a, d') => runSteps (f a) d'
      | (.error e, d') => (.error e, d') := by
  have hbind : runSteps (x >>= f) d =
      (ExceptT.bindCont f (runSteps x d).1).run (runSteps x d).2 := rfl
  rw [hbind]
  cases runSteps x d with
  | mk result d' => cases result <;> rfl

@[simp] lemma runSteps_get (d : Directory) : runSteps (get : Steps Directory) d = (.ok d, d) := rfl

@[simp] lemma runSteps_lift (x : Except DirectoryError α) (d : Directory) :
    runSteps (liftM x : Steps α) d = (x, d) := rfl

@[simp] lemma runSteps_edit (change : Directory → Directory) (d : Directory) :
    runSteps (edit change) d = (.ok (), change d) := rfl

end Run

/-- The outcome of a change as a whole: a new directory, or the one there was. -/
def settle (d : Directory) :
    Except DirectoryError Directory → Except DirectoryError Unit × Directory
  | .ok d' => (.ok (), d')
  | .error e => (.error e, d)

/-! ### Changes in place -/

variable {d : Directory}

@[simp] lemma entryAt?_pave (path p : Dn.Path) : (d.pave path).entryAt? p = d.entryAt? p := by
  refine Option.ext fun held => ?_
  rw [entryAt?_eq_some_iff, entryAt?_eq_some_iff, occupied_pave]

/-- Paving the place of an entry that is put there, or the way to it, makes no difference. -/
lemma putEntry_pave {path way : Dn.Path} (hway : way <+: path) (held : StoredEntry) :
    (d.pave way).putEntry path held = d.putEntry path held := by
  refine Directory.ext (SortedMap.eq_of_mem_iff ?_)
  rintro ⟨p, node⟩
  simp only [putEntry, pave, Nodes.mem_put_iff, Nodes.mem_pave_iff]
  refine or_congr_right (and_congr_left fun hne => ?_)
  have hbefore : p ∈ Dn.beginnings way → p ∈ Dn.beginnings path.dropLast := by
    rw [Dn.mem_beginnings, Dn.mem_beginnings]
    exact .imp_right fun hp => Dn.prefix_dropLast_of_ne (hp.trans hway) hne
  constructor
  · rintro ((hold | ⟨rfl, hp, hnone⟩) | ⟨rfl, hp, hnone⟩)
    · exact .inl hold
    · exact .inr ⟨rfl, hbefore hp, hnone⟩
    · exact .inr ⟨rfl, hp, fun other hother => hnone other (.inl hother)⟩
  · rintro (hold | ⟨rfl, hp, hnone⟩)
    · exact .inl (.inl hold)
    · by_cases hp' : p ∈ Dn.beginnings way
      · exact .inl (.inr ⟨rfl, hp', hnone⟩)
      · refine .inr ⟨rfl, hp, fun other hother => ?_⟩
        exact hother.elim (hnone other) fun hpaved => hp' hpaved.2.1

/-- Where there is an entry already, there was a way, and nothing has been paved. -/
lemma runSteps_addInPlace (dn : String) (attributes : List Attribute) :
    runSteps (addInPlace dn attributes) d = settle d (d.add dn attributes) := by
  simp only [addInPlace, runSteps_bind, runSteps_lift, Directory.add]
  cases entryPathOf dn with
  | error e => rfl
  | ok path =>
    simp only [runSteps_get, ok_bind]
    split
    · rfl
    simp only [runSteps_bind, runSteps_edit, runSteps_get]
    rw [entryAt?_pave, entryAt?_pave]
    cases hheld : d.entryAt? path with
    | some held =>
      have hnode := hasNodeAt_of_entryAt? hheld
      rw [pave_eq_self (hasNodeAt_of_isPrefix hnode (List.dropLast_prefix path)),
        pave_eq_self hnode]
      rfl
    | none =>
      simp only [Option.isSome_none, Bool.false_eq_true, if_false, runSteps_edit,
        putEntry_pave (List.prefix_refl path), putEntry_pave (List.dropLast_prefix path)]
      rfl

/-- A deletion in place looks before it takes anything out. -/
lemma runSteps_deleteInPlace (dn : String) :
    runSteps (deleteInPlace dn) d = settle d (d.delete dn) := by
  simp only [deleteInPlace, runSteps_bind, runSteps_lift, Directory.delete]
  cases entryPathOf dn with
  | error e => rfl
  | ok path =>
    simp only [runSteps_get, ok_bind]
    split
    · rfl
    split
    · rfl
    · rfl

/-- What has been done to the copy is of no consequence if a modification fails. -/
lemma runSteps_modifyInPlace (dn : String) (steps : List Modification) :
    runSteps (modifyInPlace dn steps) d = settle d (d.modify dn steps) := by
  simp only [modifyInPlace, runSteps_bind, runSteps_lift, Directory.modify]
  cases pathOf dn with
  | error e => rfl
  | ok path =>
    simp only [runSteps_get, ok_bind]
    cases d.entryAt? path with
    | none => rfl
    | some held =>
      simp only [AttributeBag.applyAll_eq]
      cases held.attributes.applyEach steps with
      | mk result attributes => cases result <;> rfl

/-- A name that gives a place below the root has a first part. -/
lemma exists_head_of_path? {dn : String} {path : Dn.Path} (h : Dn.path? dn = some path)
    (hne : path ≠ []) : ∃ rdn, (Dn.parse? dn).bind List.head? = some rdn := by
  obtain ⟨rdns, hrdns, rfl⟩ := Option.map_eq_some_iff.1 h
  obtain ⟨rdn, rest, rfl⟩ := List.exists_cons_of_ne_nil (l := rdns) (by rintro rfl; exact hne rfl)
  exact ⟨rdn, by rw [hrdns]; rfl⟩

/-- The way to a node outside of a subtree is still there when the subtree has been taken out. -/
lemma pave_prune {path place : Dn.Path} (hnode : d.hasNodeAt place = true)
    (hout : ¬ path <+: place) : (d.prune path).pave place = d.prune path :=
  pave_eq_self (hasNodeAt_prune.2 (.inr ⟨hnode, hout⟩))

/-- The way to the new place is there, and nothing fails once the subtree has been taken out. -/
lemma runSteps_renameInPlace (dn : String) (rename : Rename) :
    runSteps (renameInPlace dn rename) d = settle d (d.rename dn rename) := by
  simp only [renameInPlace, runSteps_bind, runSteps_lift, Directory.rename]
  cases hentry : entryPathOf dn with
  | error e => rfl
  | ok path =>
    simp only [runSteps_get, ok_bind]
    cases hheld : d.entryAt? path with
    | none => rfl
    | some held =>
      cases Dn.parseRdn? rename.newRdn with
      | none => rfl
      | some newRdn =>
        simp only [runSteps_bind, runSteps_lift]
        cases hparent : newParent d dn path rename with
        | error e => rfl
        | ok parent =>
          obtain ⟨parentPath, parentDn⟩ := parent
          simp only [ok_bind]
          split
          · rfl
          -- the old place is cut out before the new one is made; the parent is outside of it
          obtain ⟨hpath, hne⟩ := entryPathOf_eq_ok_iff.1 hentry
          obtain ⟨oldRdn, hold⟩ := exists_head_of_path? hpath hne
          obtain ⟨hthere, hout⟩ :=
            parent_of_newParent hne (hasNodeAt_of_entryAt? hheld) hparent
          simp only [hold, runSteps_bind, runSteps_edit, pave_prune hthere hout]
          rfl

/-- A change in place is the change as a whole. -/
theorem runSteps_applyInPlace (d : Directory) (record : ChangeRecord) :
    runSteps (applyInPlace record) d = settle d (d.apply record) := by
  cases record with
  | add e => exact runSteps_addInPlace e.dn e.attributes
  | delete dn _ => exact runSteps_deleteInPlace dn
  | modify dn steps _ _ => exact runSteps_modifyInPlace dn steps
  | rename dn rename _ => exact runSteps_renameInPlace dn rename

/-- Carried out step by step, with nothing taken back, a change does what it does as a whole, and if
it is rejected, the directory is the same as before, with all its nodes, names and attributes. -/
theorem unchanged_of_rejected (d : Directory) (record : ChangeRecord) :
    connection.apply d record =
        ((runSteps (applyInPlace record) d).1.mapError .directory,
          (runSteps (applyInPlace record) d).2) ∧
      ∀ e, (runSteps (applyInPlace record) d).1 = .error e →
        (runSteps (applyInPlace record) d).2 = d := by
  rw [runSteps_applyInPlace d record]
  constructor
  · rw [connection_apply]
    cases d.apply record <;> rfl
  · intro e he
    cases happly : d.apply record with
    | error e' => rfl
    | ok d' =>
      rw [happly] at he
      exact absurd he nofun

/-- The value that a modification has added to the copy is not there when the next one fails. -/
theorem unchanged_of_rejected_second :
    let e : Entry := ⟨"cn=x,dc=b", [⟨"cn", [[0x78]], by decide, by decide⟩],
      by decide, by decide⟩
    let d := empty.after [.add e]
    let record : ChangeRecord := .modify "cn=x,dc=b"
      [⟨.add, "sn", [[0x79]], by decide, by decide⟩, ⟨.delete, "mail", [], by decide, by decide⟩]
      (by decide) (by decide)
    (runSteps (applyInPlace record) d).1 = .error (AttributeBag.noSuchAttribute "mail") ∧
      (runSteps (applyInPlace record) d).2 = d := by
  intro e d record
  have hrejected : (runSteps (applyInPlace record) d).1 =
      .error (AttributeBag.noSuchAttribute "mail") := by
    decide +kernel
  exact ⟨hrejected, (unchanged_of_rejected d record).2 _ hrejected⟩

end Directory

end DirectoryExchange

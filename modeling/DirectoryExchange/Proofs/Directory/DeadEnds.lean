import DirectoryExchange.Proofs.Directory.Grounding

/-!
# Ways to nothing

Glue is put in on the way to an entry.  It stays when the entry is deleted or goes elsewhere, and if
nothing else is there below it, it is then a way to nothing.  Nothing but this makes such ways
(`leadsOn_apply_iff`), and over a run of changes every node leads to an entry exactly if no entry
ever goes that alone has held up the glue above it (`leadsOn_after_iff`).
-/

namespace DirectoryExchange.Directory

variable {d d' : Directory} {path newPath p q : Dn.Path}

/-- Whether every node below the root is an entry or on the way to one. -/
def LeadsOn (d : Directory) : Prop :=
  ∀ p, p ≠ [] → d.hasNodeAt p = true → ∃ q, p <+: q ∧ (d.entryAt? q).isSome

/-- Whether the node above the place does not need the node at the place: it is the root or an
entry, or it has another child. -/
def Upheld (d : Directory) (path : Dn.Path) : Prop :=
  path.dropLast = [] ∨ (d.entryAt? path.dropLast).isSome ∨
    ∃ key, path.dropLast ++ [key] ≠ path ∧ d.hasNodeAt (path.dropLast ++ [key]) = true

/-- Whether a change leaves no way to nothing: the glue above an entry that goes does not need it,
or the entry takes its new place below that glue, or in the stead of it. -/
def KeepsLeading (d : Directory) : ChangeRecord → Prop
  | .delete dn _ => ∀ path, Dn.path? dn = some path → d.Upheld path
  | .rename dn rename _ => ∀ path newPath, d.Moves dn rename path newPath →
      d.Upheld path ∨ path.dropLast <+: newPath ∨ d.overruns path newPath path.dropLast = true
  | .add _ => True
  | .modify _ _ _ _ => True

/-! ### Nodes and entries below them -/

/-- A path that goes beyond another one goes through a child of it. -/
lemma exists_child_of_isPrefix (h : p <+: q) (hne : q ≠ p) : ∃ key, p ++ [key] <+: q := by
  obtain ⟨rest, rfl⟩ := h
  obtain ⟨key, rest, rfl⟩ := List.exists_cons_of_ne_nil (l := rest) (by
    rintro rfl
    exact hne (List.append_nil p))
  exact ⟨key, rest, by simp⟩

/-- A child of the node above a place is at the place or beside it. -/
lemma eq_of_child_isPrefix {key : Dn.RdnKey} (h : path.dropLast ++ [key] <+: path) :
    path.dropLast ++ [key] = path := by
  refine h.eq_of_length_le ?_
  rw [List.length_append, List.length_dropLast, List.length_singleton]
  omega

/-- An entry below the node above a place, and not in the subtree at the place, holds that node
up. -/
lemma upheld_of_entry (habove : path.dropLast <+: q) (hout : ¬ path <+: q)
    (hentry : (d.entryAt? q).isSome) : d.Upheld path := by
  by_cases hq : q = path.dropLast
  · exact .inr (.inl (hq ▸ hentry))
  · obtain ⟨key, hkey⟩ := exists_child_of_isPrefix habove hq
    refine .inr (.inr ⟨key, ?_, hasNodeAt_of_entry hentry hkey⟩)
    rintro heq
    exact hout (heq ▸ hkey)

/-- Where every node leads to an entry, a node that is held up leads to one outside of the subtree
at the place. -/
lemma Upheld.exists_entry (hup : d.Upheld path) (h : d.LeadsOn) (hpath : path ≠ []) (hp : p ≠ [])
    (habove : p <+: path.dropLast) : ∃ q, p <+: q ∧ ¬ path <+: q ∧ (d.entryAt? q).isSome := by
  rcases hup with hroot | hentry | ⟨key, hne, hnode⟩
  · rw [hroot, List.prefix_nil] at habove
    exact absurd habove hp
  · exact ⟨_, habove, not_prefix_dropLast hpath, hentry⟩
  · obtain ⟨q, hq, hentry⟩ := h _ (by simp) hnode
    refine ⟨q, habove.trans ((List.prefix_append _ _).trans hq), fun hin => hne ?_, hentry⟩
    rcases List.prefix_or_prefix_of_prefix hq hin with hbegins | hbegins
    · exact eq_of_child_isPrefix hbegins
    · refine (hbegins.eq_of_length_le ?_).symm
      have := List.length_pos_iff.2 hpath
      rw [List.length_append, List.length_dropLast, List.length_singleton]
      omega

/-! ### Adding, deleting and modifying -/

/-- Glue that is put in with an entry leads to that entry. -/
lemma LeadsOn.putEntry (h : d.LeadsOn) (held : StoredEntry) : (d.putEntry path held).LeadsOn := by
  intro p hp hnode
  simp only [entryAt?_insert_isSome_iff (occupied_putEntry d path held)]
  rcases hasNodeAt_putEntry.1 hnode with hbegins | hnode
  · exact ⟨path, hbegins, .inl rfl⟩
  · obtain ⟨q, hq, hentry⟩ := h p hp hnode
    exact ⟨q, hq, .inr hentry⟩

/-- An addition makes no way to nothing. -/
lemma LeadsOn.add (h : d.LeadsOn) {dn : String} {attributes : List Attribute}
    (hadd : d.add dn attributes = .ok d') : d'.LeadsOn := by
  obtain ⟨path, -, -, rfl⟩ := add_eq_ok hadd
  exact h.putEntry _

lemma LeadsOn.modify (h : d.LeadsOn) {dn : String} {steps : List Modification}
    (hmodify : d.modify dn steps = .ok d') : d'.LeadsOn := by
  obtain ⟨path, held, attributes, -, -, -, rfl⟩ := modify_eq_ok_iff.1 hmodify
  exact h.putEntry _

/-- Where nothing is below a place, nothing but the node there is taken out. -/
lemma hasNodeAt_prune_of_leaf (hpath : path ≠ [])
    (hleaf : ∀ x ∈ d.nodes.toList, isBelow x.1 path = false) :
    (d.prune path).hasNodeAt p = true ↔ d.hasNodeAt p = true ∧ p ≠ path := by
  rw [hasNodeAt_prune]
  by_cases hp : p = []
  · simp [hp, hpath.symm]
  · rw [or_iff_right hp]
    refine and_congr_right fun hnode => not_congr ?_
    obtain ⟨node, hmem⟩ := (hasNodeAt_iff.1 hnode).resolve_left hp
    exact isPrefix_iff_of_leaf hleaf hmem

/-- The glue above a deleted entry is left with nothing below it unless it is held up. -/
lemma leadsOn_delete_iff (h : d.LeadsOn) {dn : String} (hdelete : d.delete dn = .ok d') :
    d'.LeadsOn ↔ ∀ path, Dn.path? dn = some path → d.Upheld path := by
  obtain ⟨path, held, hdn, hpath, hheld, hleaf, rfl⟩ := delete_eq_ok_iff.1 hdelete
  simp only [hdn, Option.some.injEq, forall_eq']
  constructor
  · intro h'
    by_cases hroot : path.dropLast = []
    · exact .inl hroot
    have hthere := hasNodeAt_of_isPrefix (hasNodeAt_of_entryAt? hheld) (List.dropLast_prefix path)
    have hother : path.dropLast ≠ path := (isBelow_iff.1 (isBelow_dropLast hpath)).2.symm
    obtain ⟨q, hq, hentry⟩ := h' _ hroot ((hasNodeAt_prune_of_leaf hpath hleaf).2 ⟨hthere, hother⟩)
    obtain ⟨hentry, hne⟩ := (entryAt?_prune_isSome_iff hleaf).1 hentry
    refine upheld_of_entry hq (fun hin => ?_) hentry
    -- nothing is below the entry that is deleted
    obtain ⟨held', hheld'⟩ := Option.isSome_iff_exists.1 hentry
    have hbelow := hleaf _ (mem_occupied.1 (entryAt?_eq_some_iff.1 hheld'))
    rw [isBelow_iff.2 ⟨hin, hne⟩] at hbelow
    cases hbelow
  · intro hup p hp hnode
    obtain ⟨hnode, hne⟩ := (hasNodeAt_prune_of_leaf hpath hleaf).1 hnode
    obtain ⟨q, hq, hentry⟩ := h p hp hnode
    by_cases hqp : q = path
    · subst hqp
      obtain ⟨r, hr, hout, hentry'⟩ := hup.exists_entry h hpath hp (Dn.prefix_dropLast_of_ne hq hne)
      refine ⟨r, hr, (entryAt?_prune_isSome_iff hleaf).2 ⟨hentry', ?_⟩⟩
      rintro rfl
      exact hout (List.prefix_refl r)
    · exact ⟨q, hq, (entryAt?_prune_isSome_iff hleaf).2 ⟨hentry, hqp⟩⟩

/-! ### Renaming -/

section Rename

/-- What is above a place that is overrun, and not overrun itself, is above the new place. -/
lemma isPrefix_of_overruns (hover : d.overruns path newPath q = true)
    (hp : p <+: q) (hnot : ¬ d.overruns path newPath p = true) : p <+: newPath := by
  obtain ⟨key, hkey, hbegins⟩ := overruns_iff.1 hover
  rcases List.prefix_or_prefix_of_prefix hp hbegins with hp' | hp'
  · rcases List.prefix_concat_iff.1 hp' with rfl | hp'
    · exact absurd (overruns_iff.2 ⟨key, hkey, List.prefix_refl _⟩) hnot
    · exact hp'
  · exact absurd (overruns_iff.2 ⟨key, hkey, hp'⟩) hnot

variable (hpath : path ≠ [])
  (hsome : (d.entryAt? path).isSome)
  (hnodes : ∀ p, d'.hasNodeAt p = true ↔
    (∃ q, d.hasNodeAt (path ++ q) = true ∧ p = newPath ++ q) ∨
      p <+: newPath ∨ (d.hasNodeAt p = true ∧ ¬ path <+: p ∧ ¬ d.overruns path newPath p = true))
  (hentries : ∀ p, (d'.entryAt? p).isSome ↔
    (∃ q, (d.entryAt? (path ++ q)).isSome ∧ p = newPath ++ q) ∨
      ((d.entryAt? p).isSome ∧ d.Stays path newPath p))

include hpath hsome hnodes hentries

/-- If every node leads to an entry behind a rename, then the node above the old place is held up by
something else, or by the entry at its new place, or is not there any more. -/
lemma LeadsOn.upheld_of_rename (h' : d'.LeadsOn) :
    d.Upheld path ∨ path.dropLast <+: newPath ∨
      d.overruns path newPath path.dropLast = true := by
  by_cases hroot : path.dropLast = []
  · exact .inl (.inl hroot)
  by_cases hover : d.overruns path newPath path.dropLast = true
  · exact .inr (.inr hover)
  have hthere := hasNodeAt_of_entry hsome (List.dropLast_prefix path)
  obtain ⟨q, hq, hentry⟩ := h' _ hroot
    ((hnodes _).2 (.inr (.inr ⟨hthere, not_prefix_dropLast hpath, hover⟩)))
  rcases (hentries q).1 hentry with ⟨r, hr, rfl⟩ | ⟨hentry, hstays⟩
  · -- the entry is in the subtree at its new place
    rcases List.prefix_or_prefix_of_prefix hq (List.prefix_append newPath r) with habove | hbelow
    · exact .inr (.inl habove)
    by_cases hsame : path.dropLast = newPath
    · exact .inr (.inl (hsame ▸ List.prefix_refl _))
    obtain ⟨key, hkey⟩ := exists_child_of_isPrefix hbelow hsame
    refine absurd (overruns_iff.2 ⟨key, ?_, hkey⟩) hover
    refine hasNodeAt_of_entry hr ((List.prefix_append_right_inj path).2 ?_)
    exact (List.prefix_append_right_inj newPath).1 (hkey.trans hq)
  · exact .inl (upheld_of_entry hq hstays.1 hentry)

/-- Where every node leads to an entry, it does so behind a rename if the node above the old place
is held up, is above the new place or is not there any more. -/
lemma LeadsOn.of_rename (h : d.LeadsOn) (hup : d.Upheld path ∨ path.dropLast <+: newPath ∨
    d.overruns path newPath path.dropLast = true) : d'.LeadsOn := by
  have htop : (d'.entryAt? newPath).isSome :=
    (hentries newPath).2 (.inl ⟨[], by rwa [List.append_nil], (List.append_nil _).symm⟩)
  intro p hp hnode
  rcases (hnodes p).1 hnode with ⟨q, hq, rfl⟩ | hway | ⟨hnode, hout, hover⟩
  · obtain ⟨r, ⟨s, rfl⟩, hentry⟩ := h _ (by simp [hpath]) hq
    refine ⟨newPath ++ q ++ s, List.prefix_append _ _, (hentries _).2 (.inl ⟨q ++ s, ?_, ?_⟩)⟩
    · rwa [← List.append_assoc]
    · rw [List.append_assoc]
  · exact ⟨newPath, hway, htop⟩
  · -- what is outside of the subtree and not overrun is there, and else the new place is below
    have hkept : ∀ q, p <+: q → ¬ path <+: q → (d.entryAt? q).isSome →
        ∃ q, p <+: q ∧ (d'.entryAt? q).isSome := by
      intro q hq hout' hentry
      by_cases hover' : d.overruns path newPath q = true
      · exact ⟨newPath, isPrefix_of_overruns hover' hq hover, htop⟩
      · exact ⟨q, hq, (hentries q).2 (.inr ⟨hentry, hout', hover'⟩)⟩
    obtain ⟨q, hq, hentry⟩ := h p hp hnode
    by_cases hin : path <+: q
    · have habove : p <+: path.dropLast := by
        rcases List.prefix_or_prefix_of_prefix hq hin with hbegins | hbegins
        · exact Dn.prefix_dropLast_of_ne hbegins fun heq => hout (heq ▸ List.prefix_refl _)
        · exact absurd hbegins hout
      rcases hup with hup | hnew | hgone
      · obtain ⟨r, hr, hout', hentry'⟩ := hup.exists_entry h hpath hp habove
        exact hkept r hr hout' hentry'
      · exact ⟨newPath, habove.trans hnew, htop⟩
      · exact ⟨newPath, isPrefix_of_overruns hgone habove hover, htop⟩
    · exact hkept q hq hin hentry

end Rename

/-- A rename leaves a way to nothing exactly if the entry alone has held up the glue above it, and
that glue stays. -/
lemma leadsOn_rename_iff (h : d.LeadsOn) {dn : String} {rename : Rename}
    (hrename : d.rename dn rename = .ok d') :
    d'.LeadsOn ↔ ∀ path newPath, d.Moves dn rename path newPath →
      d.Upheld path ∨ path.dropLast <+: newPath ∨
        d.overruns path newPath path.dropLast = true := by
  obtain ⟨path, held, rdn, parentPath, parentDn, attributes, hdn, hpath, hheld, hrdn, hparent,
    hvacant, -, rfl⟩ := exists_transplant_of_rename hrename
  have hmoves : d.Moves dn rename path (parentPath ++ [Dn.Rdn.key rdn]) :=
    ⟨rdn, parentPath, parentDn, hdn, hrdn, hparent, rfl⟩
  have hsome : (d.entryAt? path).isSome := by
    rw [hheld]
    rfl
  have hnodes := fun p => hasNodeAt_transplant (p := p) (hasNodeAt_of_entryAt? hheld)
    (parentPath ++ [Dn.Rdn.key rdn]) ⟨joinDn rename.newRdn parentDn, attributes⟩
  have hentries := fun p => entryAt?_transplant_isSome_iff (p := p) hvacant
    ⟨joinDn rename.newRdn parentDn, attributes⟩ hheld
  constructor
  · intro h' path' newPath' hmoves'
    obtain ⟨rfl, rfl⟩ := hmoves.unique hmoves'
    exact h'.upheld_of_rename hpath hsome hnodes hentries
  · intro hkeeps
    exact h.of_rename hpath hsome hnodes hentries (hkeeps _ _ hmoves)

/-! ### Runs -/

/-- A change leaves a way to nothing exactly if an entry goes that alone has held up the glue above
it. -/
theorem leadsOn_apply_iff (h : d.LeadsOn) {record : ChangeRecord}
    (happly : d.apply record = .ok d') : d'.LeadsOn ↔ d.KeepsLeading record := by
  cases record with
  | add e => exact iff_of_true (h.add happly) trivial
  | delete dn _ => exact leadsOn_delete_iff h happly
  | modify dn steps _ _ => exact iff_of_true (h.modify happly) trivial
  | rename dn rename _ => exact leadsOn_rename_iff h happly

/-- An empty directory has no way to anything. -/
lemma leadsOn_empty : empty.LeadsOn := by
  intro p hp hnode
  rcases hasNodeAt_iff.1 hnode with hroot | ⟨node, hmem⟩
  · exact absurd hroot hp
  · exact absurd hmem List.not_mem_nil

/-- Over a run of changes every node leads to an entry exactly as long as no entry goes that alone
has held up the glue above it. -/
theorem leadsOn_after_iff (records : List ChangeRecord) :
    (∀ n, (empty.after (records.take n)).LeadsOn) ↔
      ∀ n record, records[n]? = some record →
        (∃ d', (empty.after (records.take n)).apply record = .ok d') →
        (empty.after (records.take n)).KeepsLeading record :=
  forall_after_take_iff leadsOn_empty
    (fun _ _ _ h happly => leadsOn_apply_iff h happly) records

end DirectoryExchange.Directory

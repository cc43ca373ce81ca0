import DirectoryExchange.Proofs.Directory.Reload
import DirectoryExchange.Proofs.Directory.Size

/-!
# Gaps between entries

An entry is added where its parent is an entry or nothing above it is, and so an entry has no gap
above it when it comes.  But what is below the place is not looked at: an entry that is put above
others, with glue between, leaves a gap above these.  Nothing else does (`grounded_apply_iff`), and
a run of changes leaves no gaps exactly if no entry is ever put in this way (`grounded_after_iff`).
-/

namespace DirectoryExchange.Directory

variable {d d' : Directory} {path newPath p low place : Dn.Path}

/-! ### Places with entries -/

/-- In a directory without gaps the parent of an entry is an entry, or nothing above it is. -/
lemma grounded_iff : d.Grounded ↔ ∀ p, (d.entryAt? p).isSome →
    (d.entryAt? p.dropLast).isSome ∨ ∀ a, isBelow p a = true → ¬ (d.entryAt? a).isSome := by
  simp only [Grounded, Option.not_isSome_iff_eq_none]
  constructor
  · intro h p hp
    obtain ⟨held, hheld⟩ := Option.isSome_iff_exists.1 hp
    exact h p held hheld
  · intro h p held hheld
    exact h p (by rw [hheld]; rfl)

/-- Behind an insertion there are entries at the place and where there were some. -/
lemma entryAt?_insert_isSome_iff {held : StoredEntry}
    (h : d'.occupied = d.occupied.insert path held) :
    (d'.entryAt? p).isSome ↔ p = path ∨ (d.entryAt? p).isSome := by
  rw [entryAt?_of_occupied h]
  split
  · next hp => simp [hp]
  · next hp => simp [hp]

/-- If nothing is below an entry, its deletion takes that entry away and no other. -/
lemma entryAt?_prune_isSome_iff (hleaf : ∀ x ∈ d.nodes.toList, isBelow x.1 path = false) :
    ((d.prune path).entryAt? p).isSome ↔ (d.entryAt? p).isSome ∧ p ≠ path := by
  rw [entryAt?_prune_of_leaf hleaf]
  split
  · next hp => simp [hp]
  · next hp => simp [hp]

/-! ### Entries above others -/

/-- Whether an entry at the place leaves no gap above those below it that stay: each is a child of
the place or has its parent among the entries. -/
def Bridged (d : Directory) (place : Dn.Path) (stays : Dn.Path → Prop) : Prop :=
  ∀ low, isBelow low place = true → (d.entryAt? low).isSome → stays low →
    low.dropLast = place ∨ (d.entryAt? low.dropLast).isSome

/-- Whether a change leaves no gap above the entries that were there before. -/
def KeepsGrounded (d : Directory) : ChangeRecord → Prop
  | .add e => ∀ path, Dn.path? e.dn = some path → d.Bridged path fun _ => True
  | .rename dn rename _ => ∀ path newPath, d.Moves dn rename path newPath →
      d.Bridged newPath (d.Stays path newPath)
  | .delete _ _ => True
  | .modify _ _ _ _ => True

/-! ### Changes -/

/-- An addition makes no gap exactly if it puts no entry above others with glue between. -/
lemma grounded_add_iff (hroot : d.entryAt? [] = none) (h : d.Grounded) {e : Entry}
    (hadd : d.add e.dn e.attributes = .ok d') :
    d'.Grounded ↔ d.KeepsGrounded (.add e) := by
  obtain ⟨path, hpath, hfree, rfl⟩ := (add_eq_ok_iff hroot).1 hadd
  have hkeeps : d.KeepsGrounded (.add e) ↔ d.Bridged path fun _ => True := by
    simp only [KeepsGrounded, hpath, Option.some.injEq, forall_eq']
  rw [hkeeps, grounded_iff]
  simp only [entryAt?_insert_isSome_iff (occupied_putEntry _ _ _)]
  constructor
  · intro h' low hlow hentry _
    rcases h' low (.inr hentry) with hparent | hnone
    · exact hparent
    · exact absurd (.inl rfl) (hnone path hlow)
  · rintro hbridged p (rfl | hp)
    · rcases hfree.grounded with hparent | hnone
      · exact .inl (.inr hparent)
      · refine .inr fun a ha => ?_
        rintro (rfl | hentry)
        · exact (isBelow_iff.1 ha).2 rfl
        · rw [hnone a ha] at hentry
          exact Bool.false_ne_true hentry
    · by_cases hlow : isBelow p path = true
      · exact .inl (hbridged p hlow hp trivial)
      · refine (grounded_iff.1 h p hp).imp .inr fun hnone a ha => ?_
        rintro (rfl | hentry)
        · exact hlow ha
        · exact hnone a ha hentry

/-- A deletion makes no gap, since nothing is below what is deleted. -/
lemma Grounded.delete (h : d.Grounded) {dn : String} (hdelete : d.delete dn = .ok d') :
    d'.Grounded := by
  obtain ⟨path, held, -, hpath, -, hleaf, rfl⟩ := delete_eq_ok_iff.1 hdelete
  rw [grounded_iff]
  intro p hp
  rw [entryAt?_prune_isSome_iff hleaf] at hp
  rcases grounded_iff.1 h p hp.1 with hparent | hnone
  · refine .inl ((entryAt?_prune_isSome_iff hleaf).2 ⟨hparent, ?_⟩)
    -- nothing is below the entry that is deleted
    rintro rfl
    obtain ⟨held, hheld⟩ := entryAt?_isSome_iff.1 hp.1
    have hne : p ≠ [] := by
      rintro rfl
      exact hpath rfl
    have hbelow := hleaf _ (mem_occupied.1 hheld)
    rw [isBelow_dropLast hne] at hbelow
    cases hbelow
  · exact .inr fun a ha hentry => hnone a ha ((entryAt?_prune_isSome_iff hleaf).1 hentry).1

/-- A modification makes no gap, since entries stay where they are. -/
lemma Grounded.modify (h : d.Grounded) {dn : String} {steps : List Modification}
    (hmodify : d.modify dn steps = .ok d') : d'.Grounded := by
  obtain ⟨path, held, attributes, -, hheld, -, hoccupied⟩ := modify_eq_ok hmodify
  have hsame : ∀ p, (d'.entryAt? p).isSome ↔ (d.entryAt? p).isSome := by
    intro p
    rw [entryAt?_insert_isSome_iff hoccupied, or_iff_right_of_imp]
    rintro rfl
    exact entryAt?_isSome_iff.2 ⟨held, hheld⟩
  rw [grounded_iff] at h ⊢
  simpa only [hsame] using h

section Rename

/-- What is below something below a place is below the place. -/
lemma isBelow_of_append {q : Dn.Path} (h : isBelow p (path ++ q) = true) :
    isBelow p path = true := by
  obtain ⟨hbegins, hne⟩ := isBelow_iff.1 h
  refine isBelow_iff.2 ⟨(List.prefix_append path q).trans hbegins, ?_⟩
  rintro rfl
  exact hne (hbegins.eq_of_length_le (by simp)).symm

/-- The new parent stays. -/
lemma stays_parent {parentPath : Dn.Path} (hout : ¬ path <+: parentPath)
    (key : Dn.RdnKey) : d.Stays path (parentPath ++ [key]) parentPath := by
  refine ⟨hout, fun hover => ?_⟩
  obtain ⟨key', -, hbegins⟩ := overruns_iff.1 hover
  have hlength := hbegins.length_le
  simp only [List.length_append, List.length_singleton] at hlength
  omega

/-- What is above a place that stays stays, too. -/
lemma Stays.of_isPrefix (h : d.Stays path newPath p) {a : Dn.Path}
    (ha : a <+: p) : d.Stays path newPath a := by
  refine ⟨fun hin => h.1 (hin.trans ha), fun hover => h.2 ?_⟩
  rw [overruns_iff] at hover ⊢
  obtain ⟨key, hkey, hbegins⟩ := hover
  exact ⟨key, hkey, hbegins.trans ha⟩

/-- Above the new place of a renamed entry there is a parent or nothing. -/
lemma Grounded.of_newParent (h : d.Grounded) (hroot : d.entryAt? [] = none)
    (hentry : (d.entryAt? path).isSome) {dn : String} {rename : Rename} {parentPath : Dn.Path}
    {parentDn : String} (hparent : d.newParent dn path rename = .ok (parentPath, parentDn)) :
    (d.entryAt? parentPath).isSome ∨ ∀ a, a <+: parentPath → ¬ (d.entryAt? a).isSome := by
  unfold newParent at hparent
  split at hparent
  · obtain ⟨rfl, -⟩ := Prod.mk.inj (Except.ok.inj hparent)
    refine (grounded_iff.1 h path hentry).imp_right fun hnone a ha => ?_
    refine hnone a (isBelow_iff.2 ⟨ha.trans (List.dropLast_prefix path), ?_⟩)
    rintro rfl
    refine not_prefix_dropLast ?_ ha
    rintro rfl
    rw [hroot] at hentry
    cases hentry
  · next superior _ =>
    obtain ⟨superiorPath, -, hparent⟩ := bind_eq_ok_iff.1 hparent
    split at hparent
    · cases hparent
    split at hparent
    · next hthere =>
      obtain ⟨rfl, -⟩ := Prod.mk.inj (Except.ok.inj hparent)
      rcases Bool.or_eq_true_iff.1 hthere with hnil | hsome
      · refine .inr fun a ha => ?_
        rw [List.isEmpty_iff.1 hnil, List.prefix_nil] at ha
        simp [ha, hroot]
      · exact .inl hsome
    · cases hparent

variable {parentPath : Dn.Path} {key : Dn.RdnKey} (hsome : (d.entryAt? path).isSome)
  (hentries : ∀ p, (d'.entryAt? p).isSome ↔
    (∃ q, (d.entryAt? (path ++ q)).isSome ∧ p = parentPath ++ [key] ++ q) ∨
      ((d.entryAt? p).isSome ∧ d.Stays path (parentPath ++ [key]) p))

include hsome hentries

/-- If a rename leaves no gaps, there is none above the entries that are below the new place already
and stay there. -/
lemma Grounded.bridged (h' : d'.Grounded) :
    d.Bridged (parentPath ++ [key]) (d.Stays path (parentPath ++ [key])) := by
  intro low hlow hentry hstays
  rcases grounded_iff.1 h' low ((hentries low).2 (.inr ⟨hentry, hstays⟩)) with habove | hnone
  · rcases (hentries _).1 habove with ⟨q, hq, heq⟩ | ⟨habove, -⟩
    · refine .inl ?_
      by_cases hnil : q = []
      · rw [heq, hnil, List.append_nil]
      · have hparent := hstays.of_isPrefix (List.dropLast_prefix low)
        rw [heq] at hparent
        exact absurd hparent
          (not_stays_of_hasNodeAt hnil (hasNodeAt_of_entry hq (List.prefix_refl _)))
    · exact .inr habove
  · refine absurd ((hentries _).2 (.inl ⟨[], ?_, ?_⟩)) (hnone _ hlow)
    · rwa [List.append_nil]
    · rw [List.append_nil]

/-- A rename leaves no gaps if there is none above the entries that are below the new place already
and stay there: what moves takes its parent along, and the new parent stays. -/
lemma Bridged.grounded (h : d.Grounded) (hout : ¬ path <+: parentPath)
    (hparent : (d.entryAt? parentPath).isSome ∨ ∀ a, a <+: parentPath → ¬ (d.entryAt? a).isSome)
    (hbridged : d.Bridged (parentPath ++ [key]) (d.Stays path (parentPath ++ [key]))) :
    d'.Grounded := by
  have htop : (d'.entryAt? (parentPath ++ [key])).isSome :=
    (hentries _).2 (.inl ⟨[], by rwa [List.append_nil], by rw [List.append_nil]⟩)
  have hkept : ∀ {p a : Dn.Path}, d.Stays path (parentPath ++ [key]) p → a <+: p →
      (d.entryAt? a).isSome → (d'.entryAt? a).isSome :=
    fun hstays ha hentry => (hentries _).2 (.inr ⟨hentry, hstays.of_isPrefix ha⟩)
  rw [grounded_iff]
  intro p hp
  rcases (hentries p).1 hp with ⟨q, hq, rfl⟩ | ⟨hentry, hstays⟩
  · rcases List.eq_nil_or_concat q with rfl | ⟨q, last, rfl⟩
    · rw [List.append_nil, List.dropLast_concat]
      refine hparent.imp (hkept (stays_parent hout key) (List.prefix_refl _)) ?_
      intro hnone a ha hentry'
      rcases (hentries a).1 hentry' with ⟨q, -, rfl⟩ | ⟨habove, -⟩
      · exact (isBelow_iff.1 (isBelow_of_append ha)).2 rfl
      · obtain ⟨hbegins, hne⟩ := isBelow_iff.1 ha
        exact hnone a ((List.prefix_concat_iff.1 hbegins).resolve_left hne.symm) habove
    · -- the entry that moves is below the renamed one, and so its parent was an entry
      rw [List.concat_eq_append] at hq ⊢
      rcases grounded_iff.1 h _ hq with hq' | hnone
      · refine .inl ((hentries _).2 (.inl ⟨q, ?_, ?_⟩))
        · rwa [← List.append_assoc, List.dropLast_concat] at hq'
        · rw [← List.append_assoc, List.dropLast_concat]
      · exact absurd hsome (hnone path (isBelow_iff.2 ⟨List.prefix_append _ _, by simp⟩))
  · by_cases hlow : isBelow p (parentPath ++ [key]) = true
    · rcases hbridged p hlow hentry hstays with heq | habove
      · exact .inl (by rwa [heq])
      · exact .inl (hkept hstays (List.dropLast_prefix p) habove)
    · refine (grounded_iff.1 h p hentry).imp (hkept hstays (List.dropLast_prefix p)) ?_
      intro hnone a ha hentry'
      rcases (hentries a).1 hentry' with ⟨q, hq, rfl⟩ | ⟨habove, -⟩
      · exact hlow (isBelow_of_append ha)
      · exact hnone a ha habove

end Rename

/-- A rename leaves no gaps exactly if there is none above the entries that are below the new place
already and stay there. -/
theorem grounded_rename_iff (hroot : d.entryAt? [] = none) (h : d.Grounded) {dn : String}
    {rename : Rename} (hrename : d.rename dn rename = .ok d') :
    d'.Grounded ↔ ∀ path newPath, d.Moves dn rename path newPath →
      d.Bridged newPath (d.Stays path newPath) := by
  obtain ⟨path, held, rdn, parentPath, parentDn, attributes, hdn, hpath, hheld, hrdn, hparent,
    hvacant, -, rfl⟩ := exists_transplant_of_rename hrename
  have hmoves : d.Moves dn rename path (parentPath ++ [Dn.Rdn.key rdn]) :=
    ⟨rdn, parentPath, parentDn, hdn, hrdn, hparent, rfl⟩
  have hsome : (d.entryAt? path).isSome := by
    rw [hheld]
    rfl
  have hentries := fun p => entryAt?_transplant_isSome_iff (p := p) hvacant
    ⟨joinDn rename.newRdn parentDn, attributes⟩ hheld
  obtain ⟨-, hout⟩ := parent_of_newParent hpath (hasNodeAt_of_entryAt? hheld) hparent
  constructor
  · intro h' path' newPath' hmoves'
    obtain ⟨rfl, rfl⟩ := hmoves.unique hmoves'
    exact h'.bridged hsome hentries
  · intro hkeeps
    exact (hkeeps _ _ hmoves).grounded hsome hentries h hout
      (h.of_newParent hroot hsome hparent)

/-- A change leaves no gaps exactly if it puts no entry above others that have glue between. -/
theorem grounded_apply_iff (hroot : d.entryAt? [] = none) (h : d.Grounded) {record : ChangeRecord}
    (happly : d.apply record = .ok d') :
    d'.Grounded ↔ d.KeepsGrounded record := by
  cases record with
  | add e => exact grounded_add_iff hroot h happly
  | delete dn _ => exact iff_of_true (h.delete happly) trivial
  | modify dn steps _ _ => exact iff_of_true (h.modify happly) trivial
  | rename dn rename _ => exact grounded_rename_iff hroot h happly

/-! ### Runs -/

/-- Over a run of changes there are no gaps between entries exactly as long as no change that is
carried out puts an entry above others that have glue between. -/
theorem grounded_after_iff (records : List ChangeRecord) :
    (∀ n, (empty.after (records.take n)).Grounded) ↔
      ∀ n record, records[n]? = some record →
        (∃ d', (empty.after (records.take n)).apply record = .ok d') →
        (empty.after (records.take n)).KeepsGrounded record :=
  forall_after_take_iff (fun _ _ hheld => by simp at hheld)
    (fun records _ _ h happly => grounded_apply_iff (sound_after records).entryAt?_nil h happly)
    records

/-- An entry can be added far above another one, though not the other one far below it.  What the
directory then holds cannot be added in order. -/
theorem gap_below_late_ancestor :
    let low : Entry := ⟨"cn=x,ou=b,dc=c", [⟨"cn", [[0x78]], by decide, by decide⟩],
      by decide, by decide⟩
    let high : Entry := ⟨"dc=c", [⟨"dc", [[0x63]], by decide, by decide⟩], by decide, by decide⟩
    let d := empty.after [.add low]
    let d' := (connection.apply d (.add high)).2
    (connection.apply d (.add high)).1 = .ok () ∧ ¬ d'.Grounded ∧ d'.entries = [high, low] ∧
      (connection.apply (empty.after [.add high]) (.add low)).1 =
        .error (.directory ⟨.noSuchObject, "parent of \"cn=x,ou=b,dc=c\" does not exist"⟩) := by
  intro low high d d'
  refine ⟨by decide +kernel, ?_, by decide +kernel, by decide +kernel⟩
  intro hgrounded
  have hheld : d'.entryAt? [[⟨"dc", [0x63]⟩], [⟨"ou", [0x62]⟩], [⟨"cn", [0x78]⟩]] =
      some (asStored low) := by
    decide +kernel
  have hparent : d'.entryAt? [[⟨"dc", [0x63]⟩], [⟨"ou", [0x62]⟩]] = none := by decide +kernel
  have habove : d'.entryAt? [[⟨"dc", [0x63]⟩]] = some (asStored high) := by decide +kernel
  rcases hgrounded _ _ hheld with hsome | hnone
  · have hsome' : (d'.entryAt? [[⟨"dc", [0x63]⟩], [⟨"ou", [0x62]⟩]]).isSome := hsome
    rw [hparent] at hsome'
    cases hsome'
  · rw [hnone [[⟨"dc", [0x63]⟩]] (by decide +kernel)] at habove
    cases habove

end DirectoryExchange.Directory

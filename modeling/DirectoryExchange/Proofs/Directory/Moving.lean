import DirectoryExchange.Proofs.Directory.Grounding
import DirectoryExchange.Proofs.Directory.RdnValues

/-!
# What a rename moves

Where nothing is at the new place, or the entry stays at its own, a rename moves the entry and what
is below it, and touches nothing else (`SubtreeMoved`).  The renamed entry gets a name from the
texts of the request.  Apart from the values of the old and the new relative name it has the
attributes that it had, but for those that are lost with the values of the old name
(`subtree_moves`), and in full they are what `attributes_after_rename` says.
-/

namespace DirectoryExchange.Directory

variable {d d' : Directory} {path newPath : Dn.Path} {dn : String} {rename : Rename}

/-! ### Subtrees at their new places -/

/-- What holds between a directory and what it becomes when the entry at `path` goes to `newPath`
with all that is below it, and nothing else is touched. -/
structure SubtreeMoved (d d' : Directory) (path newPath : Dn.Path) : Prop where
  /-- What was below the old place is below the new one, with the attributes that it had. -/
  below : ∀ q, q ≠ [] → (d'.entryAt? (newPath ++ q)).map (·.attributes) =
    (d.entryAt? (path ++ q)).map (·.attributes)
  /-- At the old place and below it there is nothing but what is in the new one. -/
  left : ∀ p, path <+: p → ¬ newPath <+: p → d'.entryAt? p = none
  /-- Elsewhere there is what there was. -/
  elsewhere : ∀ p, ¬ path <+: p → ¬ newPath <+: p → d'.entryAt? p = d.entryAt? p

/-- A new name is all that an entry from below gets. -/
lemma attributes_underNewName (subtree : Directory) (top : String) (q : Dn.Path)
    (held : StoredEntry) : (underNewName subtree top q held).attributes = held.attributes := by
  rw [underNewName]
  split <;> rfl

section Transplant

variable {held : StoredEntry} (hheld : d.entryAt? path = some held)
  (hvacant : newPath ≠ path → d.entryAt? newPath = none) (top : StoredEntry)

include hheld hvacant

/-- The renamed entry is at its new place. -/
lemma entryAt?_transplant_top :
    (d.transplant path newPath top).entryAt? newPath = some top :=
  (entryAt?_transplant_iff hvacant top).2
    (.inl ⟨[], by rw [entryAt?_rebase hheld, if_pos rfl], (List.append_nil _).symm⟩)

/-- Where nothing is at or below the new place, or it is the old one, a rename moves the subtree and
touches nothing else. -/
lemma subtreeMoved_transplant (hfree : newPath = path ∨ d.hasNodeAt newPath = false) :
    SubtreeMoved d (d.transplant path newPath top) path newPath := by
  have hrenamed := fun p s => entryAt?_transplant_iff (p := p) (s := s) hvacant top
  refine ⟨fun q hq => ?_, fun p hin hout => ?_, fun p hin hout => ?_⟩
  · -- nothing that stays is below the new place
    have hnone : ¬ ∃ s, d.entryAt? (newPath ++ q) = some s ∧
        d.Stays path newPath (newPath ++ q) := by
      rintro ⟨s, hs, hstays⟩
      rcases hfree with rfl | hfree
      · exact hstays.1 (List.prefix_append _ _)
      · rw [hasNodeAt_of_isPrefix (hasNodeAt_of_entryAt? hs) (List.prefix_append newPath q)]
          at hfree
        cases hfree
    have hmoved : (d.transplant path newPath top).entryAt? (newPath ++ q) =
        ((d.subtreeAt path).rebase top).entryAt? q := by
      refine Option.ext fun s => ?_
      rw [hrenamed, or_iff_left fun h => hnone ⟨s, h⟩]
      constructor
      · rintro ⟨q', hmem, heq⟩
        rwa [List.append_cancel_left heq]
      · exact fun h => ⟨q, h, rfl⟩
    rw [hmoved, entryAt?_rebase hheld, if_neg hq, Option.map_map]
    exact congrArg (Option.map · _) (funext (attributes_underNewName _ _ q))
  · rw [Option.eq_none_iff_forall_ne_some]
    intro s hs
    rcases (hrenamed p s).1 hs with ⟨q, -, rfl⟩ | ⟨-, hstays⟩
    · exact hout (List.prefix_append newPath q)
    · exact hstays.1 hin
  · refine Option.ext fun s => ?_
    have hnot : ¬ ∃ q, ((d.subtreeAt path).rebase top).entryAt? q = some s ∧
        p = newPath ++ q := by
      rintro ⟨q, -, rfl⟩
      exact hout (List.prefix_append newPath q)
    have hstays : d.Stays path newPath p := by
      refine ⟨hin, fun hover => ?_⟩
      obtain ⟨key, -, hbegins⟩ := overruns_iff.1 hover
      exact hout ((List.prefix_append newPath [key]).trans hbegins)
    rw [hrenamed, or_iff_right hnot, and_iff_left hstays]

end Transplant

/-! ### Renames that are carried out -/

/-- The text that names the parent an entry will have. -/
def parentName (dn : String) (rename : Rename) : String :=
  match rename.newSuperior with
  | none => (Dn.splitFirst dn).2.getD ""
  | some superior => Blank.trim superior

/-- The name of the new parent is read off the request. -/
lemma eq_parentName {parentPath : Dn.Path} {parentDn : String}
    (h : d.newParent dn path rename = .ok (parentPath, parentDn)) :
    parentDn = parentName dn rename := by
  rw [newParent] at h
  rw [parentName]
  cases hsuperior : rename.newSuperior with
  | none =>
    rw [hsuperior] at h
    exact (Prod.mk.inj (Except.ok.inj h)).2.symm
  | some superior =>
    rw [hsuperior] at h
    obtain ⟨superiorPath, -, h⟩ := bind_eq_ok_iff.1 h
    split at h
    · cases h
    split at h
    · exact (Prod.mk.inj (Except.ok.inj h)).2.symm
    · cases h

/-- A rename that is carried out has found an entry, which is then at its new place under its new
name, with the attributes that go with it. -/
lemma entry_of_accepted_rename (records : List ChangeRecord) {hdn : dn ≠ ""}
    (h : connection.apply (empty.after records) (.rename dn rename hdn) = (.ok (), d')) :
    let d := empty.after records
    ∃ path newPath held old above new, d.Moves dn rename path newPath ∧
      Dn.parse? dn = some (old :: above) ∧ Dn.parseRdn? rename.newRdn = some new ∧
      d.entryAt? path = some held ∧ held.attributes.Valid ∧
      d'.entryAt? newPath = some ⟨joinDn rename.newRdn (parentName dn rename),
        renamedAttributes held.attributes rename old new⟩ ∧
      (newPath = path ∨ d.hasNodeAt newPath = false → SubtreeMoved d d' path newPath) := by
  intro d
  obtain ⟨path, held, old, above, new, parentPath, parentDn, hpath, hne, hrdns, hheld, hnew,
    hparent, hvacant, rfl⟩ := transplant_of_rename (apply_of_accepted h)
  have hvalid := (sound_after records _ held (entryAt?_eq_some_iff.1 hheld)).valid
  rw [← eq_parentName hparent]
  exact ⟨path, _, held, old, above, new, ⟨new, parentPath, parentDn, hpath, hnew, hparent, rfl⟩,
    hrdns, hnew, hheld, hvalid, entryAt?_transplant_top hheld hvacant _,
    subtreeMoved_transplant hheld hvacant _⟩

/-- Whatever has been asked for before, a rename that is carried out moves the subtree, and touches
nothing else if the new place has no node or is the old one.  The renamed entry gets its name from
the texts of the request.  Apart from the values of the old and the new relative name it has the
attributes that it had exactly if each of them holds all that the name gives which is to go, or has
no other values. -/
theorem subtree_moves (records : List ChangeRecord) (hdn : dn ≠ "")
    (h : connection.apply (empty.after records) (.rename dn rename hdn) = (.ok (), d')) :
    let d := empty.after records
    ∃ path newPath held renamed old above new, d.Moves dn rename path newPath ∧
      Dn.parse? dn = some (old :: above) ∧ Dn.parseRdn? rename.newRdn = some new ∧
      d.entryAt? path = some held ∧ d'.entryAt? newPath = some renamed ∧
      (newPath = path ∨ d.hasNodeAt newPath = false → SubtreeMoved d d' path newPath) ∧
      (renamed.dn = if parentName dn rename = "" then Blank.trim rename.newRdn
        else Blank.trim rename.newRdn ++ "," ++ parentName dn rename) ∧
      (withoutValues (old ++ new) renamed.attributes.attributes =
          withoutValues (old ++ new) held.attributes.attributes ↔
        ∀ p ∈ held.attributes.attributes, AllHeld (valuesFor (goneRdn rename old) p.1) p.2 ∨
          valuesBeside (valuesFor (old ++ new) p.1) p.2 = []) := by
  intro d
  obtain ⟨path, newPath, held, old, above, new, hmoves, hold, hnew, hheld, hvalid, hrenamed,
    hmoved⟩ := entry_of_accepted_rename records h
  exact ⟨path, newPath, held, _, old, above, new, hmoves, hold, hnew, hheld, hrenamed, hmoved, rfl,
    withoutValues_renamedAttributes_iff (Dn.type_ne_of_mem_parse? hold List.mem_cons_self) hvalid⟩

/-- An entry with a child is renamed, and the child goes with it. -/
theorem subtree_moves_with_child :
    let top : Entry := ⟨"ou=a", [⟨"ou", [[0x41]], by decide, by decide⟩,
      ⟨"l", [[0x61], [0x62]], by decide, by decide⟩], by decide, by decide⟩
    let child : Entry := ⟨"cn=x,ou=a", [⟨"cn", [[0x78]], by decide, by decide⟩], by decide,
      by decide⟩
    let superior : Entry := ⟨"dc=c", [⟨"dc", [[0x63]], by decide, by decide⟩], by decide,
      by decide⟩
    let move : Rename := ⟨"ou=b", true, some " dc=c", by decide, by decide⟩
    let path : Dn.Path := [[⟨"ou", [0x61]⟩]]
    let newPath : Dn.Path := [[⟨"dc", [0x63]⟩], [⟨"ou", [0x62]⟩]]
    let d := empty.after [.add top, .add child, .add superior]
    let d' := (connection.apply d (.rename "ou=a" move (by decide))).2
    connection.apply d (.rename "ou=a" move (by decide)) = (.ok (), d') ∧
      d.hasNodeAt newPath = false ∧ SubtreeMoved d d' path newPath ∧
      ∃ held renamed, d.entryAt? path = some held ∧ d'.entryAt? newPath = some renamed ∧
        renamed.dn = "ou=b,dc=c" ∧
        withoutValues [⟨"ou", [0x61]⟩, ⟨"ou", [0x62]⟩] renamed.attributes.attributes =
          withoutValues [⟨"ou", [0x61]⟩, ⟨"ou", [0x62]⟩] held.attributes.attributes := by
  intro top child superior move path newPath d d'
  have haccepted : connection.apply d (.rename "ou=a" move (by decide)) = (.ok (), d') :=
    accepted_of_fst (by decide +kernel)
  have hfree : d.hasNodeAt newPath = false := by decide +kernel
  obtain ⟨path', newPath', held, renamed, old, above, new, hmoves, hold, hnew, hheld, hrenamed,
    hmoved, hname, hattributes⟩ :=
    subtree_moves [.add top, .add child, .add superior] (by decide) haccepted
  have hplaces : d.Moves "ou=a" move path newPath :=
    ⟨[⟨"ou", [0x62]⟩], [[⟨"dc", [0x63]⟩]], "dc=c", by decide +kernel, by decide +kernel,
      by decide +kernel, by decide +kernel⟩
  obtain ⟨rfl, rfl⟩ := hplaces.unique hmoves
  have hdn : Dn.parse? "ou=a" = some [[⟨"ou", [0x61]⟩]] := by decide +kernel
  obtain ⟨rfl, rfl⟩ := List.cons.inj (Option.some.inj (hdn.symm.trans hold))
  have hrdn : Dn.parseRdn? move.newRdn = some [⟨"ou", [0x62]⟩] := by decide +kernel
  obtain rfl := Option.some.inj (hrdn.symm.trans hnew)
  have hheld' : d.entryAt? path = some (asStored top) := by decide +kernel
  obtain rfl := Option.some.inj (hheld'.symm.trans hheld)
  exact ⟨haccepted, hfree, hmoved (.inr hfree), _, renamed, hheld, hrenamed,
    hname.trans (by decide +kernel), hattributes.2 (by decide +kernel)⟩

/-- An entry can lose a value that neither its old nor its new name gives. -/
theorem value_of_neither_name_lost :
    let e : Entry := ⟨"cn=a", [⟨"cn", [[0x62]], by decide, by decide⟩,
      ⟨"sn", [[0x73]], by decide, by decide⟩], by decide, by decide⟩
    let move : Rename := ⟨"sn=t", true, none, by decide, by decide⟩
    let names : Dn.Rdn := [⟨"cn", [0x61]⟩, ⟨"sn", [0x74]⟩]
    let d := empty.after [.add e]
    let d' := (connection.apply d (.rename "cn=a" move (by decide))).2
    let others := fun held : StoredEntry => withoutValues names held.attributes.attributes
    connection.apply d (.rename "cn=a" move (by decide)) = (.ok (), d') ∧
      d.hasNodeAt [[⟨"sn", [0x74]⟩]] = false ∧
      (d.entryAt? [[⟨"cn", [0x61]⟩]]).map others = some [("cn", [[0x62]]), ("sn", [[0x73]])] ∧
      (d'.entryAt? [[⟨"sn", [0x74]⟩]]).map others = some [("sn", [[0x73]])] := by
  intro e move names d d' others
  exact ⟨accepted_of_fst (by decide +kernel), by decide +kernel, by decide +kernel,
    by decide +kernel⟩

/-- Whatever has been asked for before, an entry behind a rename has the attributes that hold all
that the old relative name gives, if this is to go, without it, and with what the new one gives.
Nothing but what the name gives is taken away exactly if each attribute holds all of it, or has no
other values. -/
theorem attributes_after_rename (records : List ChangeRecord) (hdn : dn ≠ "")
    (h : connection.apply (empty.after records) (.rename dn rename hdn) = (.ok (), d')) :
    let d := empty.after records
    ∃ path newPath held renamed old above new, d.Moves dn rename path newPath ∧
      Dn.parse? dn = some (old :: above) ∧ Dn.parseRdn? rename.newRdn = some new ∧
      d.entryAt? path = some held ∧ d'.entryAt? newPath = some renamed ∧
      let gone := goneRdn rename old
      let before := held.attributes.attributes
      renamed.attributes.attributes = withValues new (withoutValues gone (holding gone before)) ∧
        (withoutValues gone (holding gone before) = withoutValues gone before ↔
          ∀ p ∈ before, AllHeld (valuesFor gone p.1) p.2 ∨
            valuesBeside (valuesFor gone p.1) p.2 = []) := by
  intro d
  obtain ⟨path, newPath, held, old, above, new, hmoves, hold, hnew, hheld, hvalid, hrenamed, -⟩ :=
    entry_of_accepted_rename records h
  exact ⟨path, newPath, held, _, old, above, new, hmoves, hold, hnew, hheld, hrenamed,
    attributes_renamedAttributes (Dn.type_ne_of_mem_parse? hold List.mem_cons_self) hvalid,
    withoutValues_holding_eq_iff⟩

/-- The old name gives two pairs, and a value that neither of them gives stays. -/
theorem attributes_after_rename_two_pairs :
    let e : Entry := ⟨"cn=a+uid=u", [⟨"cn", [[0x41], [0x7a]], by decide, by decide⟩,
      ⟨"uid", [[0x75]], by decide, by decide⟩], by decide, by decide⟩
    let move : Rename := ⟨"cn=b", true, none, by decide, by decide⟩
    let d := empty.after [.add e]
    let d' := (connection.apply d (.rename "cn=a+uid=u" move (by decide))).2
    connection.apply d (.rename "cn=a+uid=u" move (by decide)) = (.ok (), d') ∧
      ∃ renamed, d'.entryAt? [[⟨"cn", [0x62]⟩]] = some renamed ∧
        renamed.attributes.attributes = [("cn", [[0x7a], [0x62]])] := by
  intro e move d d'
  have haccepted : connection.apply d (.rename "cn=a+uid=u" move (by decide)) = (.ok (), d') :=
    accepted_of_fst (by decide +kernel)
  obtain ⟨path, newPath, held, renamed, old, above, new, hmoves, hold, hnew, hheld, hrenamed,
    hattributes, hlost⟩ := attributes_after_rename [.add e] (by decide) haccepted
  have hplaces : d.Moves "cn=a+uid=u" move [[⟨"cn", [0x61]⟩, ⟨"uid", [0x75]⟩]]
      [[⟨"cn", [0x62]⟩]] :=
    ⟨[⟨"cn", [0x62]⟩], [], "", by decide +kernel, by decide +kernel, by decide +kernel,
      by decide +kernel⟩
  obtain ⟨rfl, rfl⟩ := hplaces.unique hmoves
  have hdn : Dn.parse? "cn=a+uid=u" = some [[⟨"cn", [0x61]⟩, ⟨"uid", [0x75]⟩]] := by
    decide +kernel
  obtain ⟨rfl, rfl⟩ := List.cons.inj (Option.some.inj (hdn.symm.trans hold))
  have hrdn : Dn.parseRdn? move.newRdn = some [⟨"cn", [0x62]⟩] := by decide +kernel
  obtain rfl := Option.some.inj (hrdn.symm.trans hnew)
  have hheld' : d.entryAt? [[⟨"cn", [0x61]⟩, ⟨"uid", [0x75]⟩]] = some (asStored e) := by
    decide +kernel
  obtain rfl := Option.some.inj (hheld'.symm.trans hheld)
  rw [hlost.2 (by decide +kernel)] at hattributes
  exact ⟨haccepted, renamed, hrenamed, hattributes.trans (by decide +kernel)⟩

/-- An attribute that does not hold what the old name gives for it goes with all its values. -/
theorem attribute_lost_with_old_name :
    let e : Entry := ⟨"cn=a", [⟨"cn", [[0x62]], by decide, by decide⟩,
      ⟨"sn", [[0x73]], by decide, by decide⟩], by decide, by decide⟩
    let move : Rename := ⟨"cn=c", true, none, by decide, by decide⟩
    let d := empty.after [.add e]
    let d' := (connection.apply d (.rename "cn=a" move (by decide))).2
    connection.apply d (.rename "cn=a" move (by decide)) = (.ok (), d') ∧
      (d'.entryAt? [[⟨"cn", [0x63]⟩]]).map (·.attributes.attributes) =
        some [("sn", [[0x73]]), ("cn", [[0x63]])] ∧
      withValues [⟨"cn", [0x63]⟩] (withoutValues [⟨"cn", [0x61]⟩]
          (AttributeBag.ofAttributes e.attributes).attributes) =
        [("cn", [[0x62], [0x63]]), ("sn", [[0x73]])] := by
  intro e move d d'
  exact ⟨accepted_of_fst (by decide +kernel), by decide +kernel, by decide +kernel⟩

end DirectoryExchange.Directory

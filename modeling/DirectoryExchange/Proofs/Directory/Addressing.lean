import DirectoryExchange.Proofs.Directory.Entries
import Mathlib.Data.List.Induction

/-!
# Names that give places

The names of the entries of a directory give the places where they are as long as every change is
faithful (`addressed_after_iff`).  A change is not if it cuts off white space that was escaped,
takes a relative name with a comma for one part, or moves an entry below a gap, which keeps its old
name.
-/

namespace DirectoryExchange.Directory

/-! ### Faithful changes -/

/-- Whether there is an entry at every place from below the path down to `q` below it. -/
def Linked (d : Directory) (path q : Dn.Path) : Prop :=
  ∀ p, p ≠ [] → p <+: q → (d.entryAt? (path ++ p)).isSome

/-- Whether a rename of the entry at `path` to one at `newPath` makes names that give places. -/
structure FaithfulRename (d : Directory) (rename : Rename) (path newPath : Dn.Path)
    (parentDn : String) : Prop where
  /-- The new relative name, trimmed, is a name with one part. -/
  single : Dn.Single (Blank.trim rename.newRdn)
  /-- The name of the parent, trimmed, is a name. -/
  parent : (Dn.parse? parentDn).isSome
  /-- An entry below that is given a new name has had a first part that is a name when trimmed. -/
  linked : ∀ q held, q ≠ [] → d.entryAt? (path ++ q) = some held → d.Linked path q →
    Dn.Single (Dn.splitFirst held.dn).1
  /-- An entry below that keeps its name, since there is a gap above it, has not been moved. -/
  gap : ∀ q held, d.entryAt? (path ++ q) = some held → ¬ d.Linked path q → newPath = path

/-- Whether a change makes names that give places. -/
def Faithful (d : Directory) : ChangeRecord → Prop
  | .add e => (Dn.parse? (Blank.trim e.dn)).isSome
  | .rename dn rename _ =>
    ∀ path rdn parentPath parentDn, Dn.path? dn = some path →
      Dn.parseRdn? rename.newRdn = some rdn →
      d.newParent dn path rename = .ok (parentPath, parentDn) →
      d.FaithfulRename rename path (parentPath ++ [Dn.Rdn.key rdn]) parentDn
  | .delete _ _ => True
  | .modify _ _ _ _ => True

/-- In a directory whose names give the places, each entry is where its name says. -/
lemma addressed_iff {d : Directory} : d.Addressed ↔
    ∀ path held, (path, held) ∈ d.occupied.toList → Dn.path? held.dn = some path := by
  simp only [Addressed, entryAt?_eq_some_iff]

/-! ### New names below a renamed entry -/

section Rebase

variable {d : Directory} {path newPath q : Dn.Path} {top : String}

/-- A way of entries goes one step further if there is an entry there. -/
lemma linked_concat_iff {key : Dn.RdnKey} : d.Linked path (q ++ [key]) ↔
    d.Linked path q ∧ (d.entryAt? (path ++ (q ++ [key]))).isSome := by
  constructor
  · intro h
    refine ⟨fun p hne hp => h p hne (hp.trans (List.prefix_append q [key])), ?_⟩
    exact h _ (by simp) (List.prefix_refl _)
  · rintro ⟨hq, hkey⟩ p hne hp
    rcases List.prefix_concat_iff.1 hp with rfl | hp
    · exact hkey
    · exact hq p hne hp

/-- The new name of an entry is made from its old one and the new name of its parent. -/
lemma rebasedDn?_concat (key : Dn.RdnKey) :
    rebasedDn? (d.subtreeAt path) top (q ++ [key]).reverse =
      (d.entryAt? (path ++ (q ++ [key]))).bind fun held =>
        (rebasedDn? (d.subtreeAt path) top q.reverse).map fun dn =>
          (Dn.splitFirst held.dn).1 ++ "," ++ dn := by
  have hreverse : (key :: q.reverse).reverse = q ++ [key] := by simp
  rw [List.reverse_append, List.reverse_singleton, List.singleton_append, rebasedDn?, hreverse,
    entryAt?_subtreeAt]
  cases d.entryAt? (path ++ (q ++ [key])) with
  | none => rfl
  | some held => rfl

/-- An entry has a new name exactly if there is no gap above it. -/
lemma rebasedDn?_isSome_iff :
    (rebasedDn? (d.subtreeAt path) top q.reverse).isSome ↔ d.Linked path q := by
  induction q using List.reverseRecOn with
  | nil =>
    refine iff_of_true rfl ?_
    intro p hne hp
    exact absurd (List.prefix_nil.1 hp) hne
  | append_singleton q key ih =>
    rw [rebasedDn?_concat, linked_concat_iff, ← ih]
    cases d.entryAt? (path ++ (q ++ [key])) with
    | none => simp
    | some held => simp

/-- The new names give the new places if the first parts of the old ones do not suffer from being
trimmed. -/
lemma path?_of_rebasedDn? (haddressed : d.Addressed) (htop : Dn.path? top = some newPath)
    (hne : newPath ≠ []) (htrimmed : Blank.Trimmed top)
    (hsingle : ∀ q held, q ≠ [] → d.entryAt? (path ++ q) = some held → d.Linked path q →
      Dn.Single (Dn.splitFirst held.dn).1) {dn : String}
    (hdn : rebasedDn? (d.subtreeAt path) top q.reverse = some dn) :
    Dn.path? dn = some (newPath ++ q) := by
  have htopne : top ≠ "" := by
    rintro rfl
    exact hne (Option.some.inj htop).symm
  induction q using List.reverseRecOn generalizing dn with
  | nil =>
    obtain rfl := Option.some.inj hdn
    rw [htop, List.append_nil]
  | append_singleton q key ih =>
    have hlinked : d.Linked path (q ++ [key]) := by
      rw [← rebasedDn?_isSome_iff, hdn]
      rfl
    rw [rebasedDn?_concat, Option.bind_eq_some_iff] at hdn
    obtain ⟨held, hheld, hdn⟩ := hdn
    obtain ⟨parent, hparent, rfl⟩ := Option.map_eq_some_iff.1 hdn
    have hold : Dn.path? held.dn = some (path ++ q ++ [key]) := by
      rw [haddressed _ _ hheld, List.append_assoc]
    obtain ⟨hparenttrimmed, -⟩ := rebasedDn?_eq_some htrimmed htopne hparent
    rw [← List.append_assoc]
    refine (Dn.path?_splitFirst_join_iff hold (ih hparent) (by simp [hne]) hparenttrimmed).2 ?_
    exact hsingle _ held (by simp) hheld hlinked

end Rebase

/-- A relative name joined to a parent gives a path below it exactly if it is a single one, and the
parent is a name that can be read. -/
lemma path?_joinDn_iff {rdn : Dn.Rdn} {text parent : String} {parentPath : Dn.Path}
    (hrdn : Dn.parseRdn? text = some rdn) (hparent : Dn.path? parent = some parentPath) :
    Dn.path? (joinDn text (Blank.trim parent)) = some (parentPath ++ [Dn.Rdn.key rdn]) ↔
      Dn.Single (Blank.trim text) ∧ (Dn.parse? (Blank.trim parent)).isSome := by
  by_cases hnil : parentPath = []
  · subst hnil
    have hblank : Blank.trim parent = "" := by
      by_contra hblank
      obtain ⟨rdns, hrdns, hpath⟩ := Option.map_eq_some_iff.1 hparent
      rcases Dn.parse?_eq_some_iff.1 hrdns with ⟨h, -⟩ | ⟨ts, -, hts⟩
      · exact hblank h
      · have hlength := congrArg List.length hpath
        rw [Dn.length_pathOf, Dn.length_of_rdnsOfTokens? hts] at hlength
        exact absurd hlength (Nat.succ_ne_zero _)
    have hroot : (Dn.parse? "").isSome := rfl
    rw [hblank, joinDn, if_pos rfl, List.nil_append, Dn.path?_trim_iff hrdn, and_iff_left hroot]
  · rw [joinDn, if_neg (Dn.trim_ne_of_path? hparent hnil)]
    exact Dn.path?_join_iff hrdn hparent hnil

/-! ### Renames -/

/-- An entry that is reached below a renamed one gets the new name. -/
lemma dn_underNewName_of_some {subtree : Directory} {top dn : String} {q : Dn.Path}
    {held : StoredEntry} (h : rebasedDn? subtree top q.reverse = some dn) :
    (underNewName subtree top q held).dn = dn := by
  rw [underNewName, h]

/-- An entry behind a gap is not reached and keeps what it has. -/
lemma underNewName_of_none {subtree : Directory} {top : String} {q : Dn.Path} {held : StoredEntry}
    (h : rebasedDn? subtree top q.reverse = none) : underNewName subtree top q held = held := by
  rw [underNewName, h]

namespace Renamed

variable {d d' : Directory} {path newPath : Dn.Path} {top : StoredEntry}

/-- A renamed entry stands where its new name says. -/
lemma path?_top (hrenamed : Renamed d d' path newPath top) (haddressed' : d'.Addressed) :
    Dn.path? top.dn = some newPath :=
  haddressed' newPath top (entryAt?_eq_some_iff.2 hrenamed.moved)

/-- An entry below a renamed one stands where its name says. -/
lemma path?_below (hrenamed : Renamed d d' path newPath top) (haddressed' : d'.Addressed)
    {q : Dn.Path} {held : StoredEntry} (hq : q ≠ []) (hheld : d.entryAt? (path ++ q) = some held) :
    Dn.path? (underNewName (d.subtreeAt path) top.dn q held).dn = some (newPath ++ q) := by
  have hmem := hrenamed.below q held hq (entryAt?_eq_some_iff.1 hheld)
  exact haddressed' _ _ (entryAt?_eq_some_iff.2 hmem)

/-- A new name gives its place, be it that of the renamed entry or of one below. -/
lemma path?_of_rebasedDn? (hrenamed : Renamed d d' path newPath top) (haddressed' : d'.Addressed)
    {q : Dn.Path} {name : String}
    (hname : rebasedDn? (d.subtreeAt path) top.dn q.reverse = some name) :
    Dn.path? name = some (newPath ++ q) := by
  by_cases hq : q = []
  · subst hq
    obtain rfl := Option.some.inj hname
    rw [List.append_nil]
    exact hrenamed.path?_top haddressed'
  · have hlinked : d.Linked path q := by
      rw [← rebasedDn?_isSome_iff, hname]
      rfl
    obtain ⟨held, hheld⟩ := Option.isSome_iff_exists.1 (hlinked q hq (List.prefix_refl q))
    have hpath := hrenamed.path?_below haddressed' hq hheld
    rwa [dn_underNewName_of_some hname] at hpath

/-- Where all names give places behind a rename, no first part of a name that was kept has suffered
from being trimmed. -/
lemma single_of_addressed (hrenamed : Renamed d d' path newPath top) (haddressed : d.Addressed)
    (haddressed' : d'.Addressed) (htop : Kept newPath top) {q : Dn.Path} {held : StoredEntry}
    (hq : q ≠ []) (hheld : d.entryAt? (path ++ q) = some held) (hlinked : d.Linked path q) :
    Dn.Single (Dn.splitFirst held.dn).1 := by
  obtain ⟨q, key, rfl⟩ := (List.eq_nil_or_concat q).resolve_left hq
  rw [List.concat_eq_append] at hheld hlinked
  obtain ⟨name, hname⟩ := Option.isSome_iff_exists.1 (rebasedDn?_isSome_iff.2 hlinked)
  have hpath := hrenamed.path?_of_rebasedDn? haddressed' hname
  rw [rebasedDn?_concat, hheld, Option.bind_some, Option.map_eq_some_iff] at hname
  obtain ⟨parent, hparent, rfl⟩ := hname
  have hparentPath := hrenamed.path?_of_rebasedDn? haddressed' hparent
  have htrimmed := (rebasedDn?_eq_some htop.trimmed htop.dn_ne hparent).1
  have hold : Dn.path? held.dn = some (path ++ q ++ [key]) := by
    rw [haddressed _ _ hheld, List.append_assoc]
  have hne : newPath ++ q ≠ [] := by simp [htop.path_ne]
  rw [← List.append_assoc] at hpath
  exact (Dn.path?_splitFirst_join_iff hold hparentPath hne htrimmed).1 hpath

/-- Where all names give places behind a rename, nothing below a gap has been moved. -/
lemma eq_of_addressed (hrenamed : Renamed d d' path newPath top) (haddressed : d.Addressed)
    (haddressed' : d'.Addressed) {q : Dn.Path} {held : StoredEntry}
    (hheld : d.entryAt? (path ++ q) = some held) (hgap : ¬ d.Linked path q) : newPath = path := by
  have hq : q ≠ [] := by
    rintro rfl
    exact hgap fun p hp hp' => absurd (List.prefix_nil.1 hp') hp
  have hnone : rebasedDn? (d.subtreeAt path) top.dn q.reverse = none := by
    rwa [← Option.not_isSome_iff_eq_none, rebasedDn?_isSome_iff]
  have hpath := hrenamed.path?_below haddressed' hq hheld
  rw [underNewName_of_none hnone, haddressed _ _ hheld] at hpath
  exact (List.append_cancel_right (Option.some.inj hpath)).symm

/-- All names give places behind a rename if that of the renamed entry does, and the others are made
from names that can be trimmed. -/
lemma addressed (hrenamed : Renamed d d' path newPath top) (haddressed : d.Addressed)
    (htop : Kept newPath top) (hpath : Dn.path? top.dn = some newPath)
    (hsingle : ∀ q held, q ≠ [] → d.entryAt? (path ++ q) = some held → d.Linked path q →
      Dn.Single (Dn.splitFirst held.dn).1)
    (hgap : ∀ q held, d.entryAt? (path ++ q) = some held → ¬ d.Linked path q → newPath = path) :
    d'.Addressed := by
  rw [addressed_iff]
  intro p s hs
  rcases hrenamed.cases p s hs with ⟨rfl, rfl⟩ | ⟨q, old, hq, hold, rfl, rfl⟩ | hother
  · exact hpath
  · rw [← entryAt?_eq_some_iff] at hold
    cases hname : rebasedDn? (d.subtreeAt path) top.dn q.reverse with
    | none =>
      have hnot : ¬ d.Linked path q := by
        rw [← rebasedDn?_isSome_iff, hname]
        exact Bool.false_ne_true
      rw [underNewName_of_none hname, haddressed _ _ hold, hgap q old hold hnot]
    | some name =>
      rw [dn_underNewName_of_some hname]
      exact Directory.path?_of_rebasedDn? haddressed hpath htop.path_ne htop.trimmed hsingle hname
  · exact addressed_iff.1 haddressed p s hother

end Renamed

/-- A rename keeps names and places together exactly if it is faithful. -/
theorem RenameStep.addressed_iff {d d' : Directory} {dn : String} {rename : Rename}
    (step : RenameStep d d' dn rename) (haddressed : d.Addressed) (h' : d'.Sound) :
    d'.Addressed ↔ d.FaithfulRename rename step.path
      (step.parentPath ++ [Dn.Rdn.key step.rdn]) step.parentDn := by
  obtain ⟨parent, hparentDn, hparentPath⟩ := step.exists_parent
  have hrenamed := step.renamed
  have htop := h' _ _ hrenamed.moved
  rw [hparentDn] at hrenamed htop ⊢
  have hjoin := path?_joinDn_iff step.rdn_eq hparentPath
  constructor
  · intro haddressed'
    have hpath := hrenamed.path?_top haddressed'
    dsimp only at hpath
    obtain ⟨hsingle, hparent⟩ := hjoin.1 hpath
    refine ⟨hsingle, hparent, ?_, ?_⟩
    · intro q held hq hheld hlinked
      exact hrenamed.single_of_addressed haddressed haddressed' htop hq hheld hlinked
    · intro q held hheld hgap
      exact hrenamed.eq_of_addressed haddressed haddressed' hheld hgap
  · rintro ⟨hsingle, hparent, hlinked, hgap⟩
    refine hrenamed.addressed haddressed htop ?_ hlinked hgap
    dsimp only
    exact hjoin.2 ⟨hsingle, hparent⟩

/-! ### One change -/

/-- A new entry is where its name says exactly if the name is still one when it is trimmed. -/
lemma addressed_add_iff {d d' : Directory} (h : d.Sound) (haddressed : d.Addressed) {e : Entry}
    (hadd : d.add e.dn e.attributes = .ok d') :
    d'.Addressed ↔ (Dn.parse? (Blank.trim e.dn)).isSome := by
  obtain ⟨path, hpath, -, rfl⟩ := (add_eq_ok_iff h.entryAt?_nil).1 hadd
  obtain ⟨rdns, hrdns, hkeys⟩ := Option.map_eq_some_iff.1 hpath
  rw [addressed_iff] at haddressed ⊢
  constructor
  · intro haddressed'
    have hnew := haddressed' path ⟨Blank.trim e.dn, .ofAttributes e.attributes⟩ (by
      rw [occupied_putEntry, SortedMap.mem_insert_iff]
      exact .inl rfl)
    obtain ⟨trimmed, htrimmed, -⟩ := Option.map_eq_some_iff.1 hnew
    rw [htrimmed]
    rfl
  · intro hsome p held hheld
    rw [occupied_putEntry, SortedMap.mem_insert_iff] at hheld
    rcases hheld with heq | ⟨hold, -⟩
    · obtain ⟨rfl, rfl⟩ := Prod.mk.inj heq
      rcases Dn.parse?_trim hrdns with ⟨htrimmed, -⟩ | ⟨hnone, -⟩
      · rw [Dn.path?, htrimmed, Option.map_some, hkeys]
      · rw [hnone] at hsome
        exact absurd hsome Bool.false_ne_true
    · exact haddressed p held hold

/-- To delete an entry leaves the names of the others as they are. -/
lemma Addressed.delete {d d' : Directory} (haddressed : d.Addressed) {dn : String}
    (hdelete : d.delete dn = .ok d') : d'.Addressed := by
  obtain ⟨path, -, hmem⟩ := delete_eq_ok hdelete
  rw [addressed_iff] at haddressed ⊢
  intro p held hheld
  exact haddressed p held ((hmem p held).1 hheld).1

/-- To modify an entry leaves its name as it is. -/
lemma Addressed.modify {d d' : Directory} (haddressed : d.Addressed) {dn : String}
    {steps : List Modification} (hmodify : d.modify dn steps = .ok d') : d'.Addressed := by
  obtain ⟨path, old, attributes, -, hold, -, hoccupied⟩ := modify_eq_ok hmodify
  rw [addressed_iff] at haddressed ⊢
  intro p held hheld
  rw [hoccupied, SortedMap.mem_insert_iff] at hheld
  rcases hheld with heq | ⟨hother, -⟩
  · obtain ⟨rfl, rfl⟩ := Prod.mk.inj heq
    exact haddressed p old hold
  · exact haddressed p held hother

/-- A change keeps names and places together exactly if it is faithful. -/
theorem addressed_apply_iff {d d' : Directory} (h : d.Sound) (haddressed : d.Addressed)
    {record : ChangeRecord} (happly : d.apply record = .ok d') :
    d'.Addressed ↔ d.Faithful record := by
  have h' := h.apply happly
  cases record with
  | add e => exact addressed_add_iff h haddressed happly
  | delete dn _ => exact iff_of_true (haddressed.delete happly) trivial
  | modify dn steps _ _ => exact iff_of_true (haddressed.modify happly) trivial
  | rename dn rename _ =>
    obtain ⟨step⟩ := rename_eq_ok happly
    constructor
    · intro haddressed' path rdn parentPath parentDn hpath hrdn hparent
      obtain rfl : path = step.path := Option.some.inj (hpath.symm.trans step.path_eq)
      obtain rfl : rdn = step.rdn := Option.some.inj (hrdn.symm.trans step.rdn_eq)
      obtain ⟨rfl, rfl⟩ : parentPath = step.parentPath ∧ parentDn = step.parentDn :=
        Prod.mk.inj (Except.ok.inj (hparent.symm.trans step.parent_eq))
      exact (step.addressed_iff haddressed h').1 haddressed'
    · intro hfaithful
      exact (step.addressed_iff haddressed h').2
        (hfaithful _ _ _ _ step.path_eq step.rdn_eq step.parent_eq)

/-! ### Runs -/

/-- Over a run of changes, names and places stay together exactly as long as every change that is
carried out is faithful. -/
theorem addressed_after_iff (records : List ChangeRecord) :
    (∀ n, (empty.after (records.take n)).Addressed) ↔
      ∀ n record, records[n]? = some record →
        (∃ d', (empty.after (records.take n)).apply record = .ok d') →
        (empty.after (records.take n)).Faithful record :=
  forall_after_take_iff (fun _ _ hheld => by simp at hheld)
    (fun records _ _ haddressed happly =>
      addressed_apply_iff (sound_after records) haddressed happly)
    records

/-! ### Entries by their names -/

/-- An entry is found by its name if names give places. -/
lemma Addressed.get?_eq_some {d : Directory} (haddressed : d.Addressed) {path : Dn.Path}
    {e : Entry} (he : (path, asStored e) ∈ d.occupied.toList) :
    Dn.path? e.dn = some path ∧ d.get? e.dn = some e := by
  have hentry := entryAt?_eq_some_iff.2 he
  have hpath : Dn.path? e.dn = some path := haddressed path (asStored e) hentry
  refine ⟨hpath, ?_⟩
  rw [get?, hpath]
  simp only [Option.bind_eq_bind, Option.bind_some, hentry, toEntry_asStored]
  rfl

/-- Over a run of changes, every name gives the place of its entry, and every entry that is listed
or found by a search is found by its name, exactly as long as every change that is carried out is
faithful. -/
theorem found_by_name_after_iff (records : List ChangeRecord) :
    (∀ n, (empty.after (records.take n)).Addressed ∧
        ∀ e, (e ∈ (empty.after (records.take n)).entries ∨
            ∃ request, e ∈ ((empty.after (records.take n)).search request).entries) →
          (Dn.path? e.dn).isSome ∧ (empty.after (records.take n)).get? e.dn = some e) ↔
      ∀ n record, records[n]? = some record →
        (∃ d', (empty.after (records.take n)).apply record = .ok d') →
        (empty.after (records.take n)).Faithful record := by
  rw [← addressed_after_iff]
  refine forall_congr' ?_
  intro n
  constructor
  · exact And.left
  · intro haddressed
    refine ⟨haddressed, ?_⟩
    intro e he
    obtain ⟨path, hheld⟩ :
        ∃ path, (path, asStored e) ∈ (empty.after (records.take n)).occupied.toList := by
      rcases he with he | ⟨request, he⟩
      · obtain ⟨placed, hplaced⟩ := (sound_after (records.take n)).exists_holds
        rw [hplaced.entries_eq] at he
        obtain ⟨⟨path, e'⟩, hmem, rfl⟩ := List.mem_map.1 he
        exact ⟨path, hplaced.mem_occupied_iff.2 ⟨e', hmem, rfl⟩⟩
      · exact mem_occupied_of_mem_search he
    obtain ⟨hpath, hget⟩ := haddressed.get?_eq_some hheld
    exact ⟨by rw [hpath]; rfl, hget⟩

/-- An entry below a gap keeps its old name when what is above the gap is moved. -/
theorem stale_name_below_gap :
    let low : Entry := ⟨"cn=x,ou=b,dc=c", [⟨"cn", [[0x78]], by decide, by decide⟩],
      by decide, by decide⟩
    let high : Entry := ⟨"dc=c", [⟨"dc", [[0x63]], by decide, by decide⟩], by decide, by decide⟩
    let move : Rename := ⟨"dc=d", false, none, by decide, by decide⟩
    let d := empty.after [.add low, .add high, .rename "dc=c" move (by decide)]
    low ∈ d.entries ∧ d.get? low.dn = none ∧ ¬ d.Addressed := by
  intro low high move d
  refine ⟨by decide +kernel, by decide +kernel, ?_⟩
  intro haddressed
  have hheld : d.entryAt? [[⟨"dc", [0x64]⟩], [⟨"ou", [0x62]⟩], [⟨"cn", [0x78]⟩]] =
      some (asStored low) := by
    decide +kernel
  have hother : Dn.path? (asStored low).dn ≠
      some [[⟨"dc", [0x64]⟩], [⟨"ou", [0x62]⟩], [⟨"cn", [0x78]⟩]] := by
    decide +kernel
  exact hother (haddressed _ _ hheld)

end DirectoryExchange.Directory

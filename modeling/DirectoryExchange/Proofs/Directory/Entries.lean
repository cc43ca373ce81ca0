import DirectoryExchange.Proofs.Directory.Runs

/-!
# The entries that a directory gives

A directory gives its entries in the order of their paths (`Sound.exists_holds`), one by one by
their names, and all of them to a search that asks for everything (`search_everything`).  None of
them is passed over because it cannot be made of what is stored (`readable_after`).
-/

namespace DirectoryExchange.Directory

/-! ### Entries and what is stored of them -/

/-- The entry as a directory holds it. -/
def asStored (e : Entry) : StoredEntry := ⟨e.dn, .ofAttributes e.attributes⟩

/-- What is stored makes the entry of which it is stored. -/
lemma toEntry_eq_ok_iff {held : StoredEntry} {e : Entry} :
    StoredEntry.toEntry held = .ok e ↔ held = asStored e := by
  rw [StoredEntry.toEntry, AttributeBag.toEntry_eq_ok_iff, asStored]
  constructor
  · rintro ⟨hdn, hattributes⟩
    rw [hdn, hattributes]
  · rintro rfl
    exact ⟨rfl, rfl⟩

/-- An entry can be made of what is stored of it. -/
lemma toEntry_asStored (e : Entry) : StoredEntry.toEntry (asStored e) = .ok e :=
  toEntry_eq_ok_iff.2 rfl

/-- Whether every entry is where its name says. -/
def Addressed (d : Directory) : Prop :=
  ∀ path held, d.entryAt? path = some held → Dn.path? held.dn = some path

/-- Whether the directory holds these entries at these paths, in this order. -/
def Holds (d : Directory) (placed : List (Dn.Path × Entry)) : Prop :=
  d.occupied.toList = placed.map fun (path, e) => (path, asStored e)

section Holds

variable {d : Directory} {placed : List (Dn.Path × Entry)}

/-- A directory that holds some entries at their places has them there and no others. -/
lemma Holds.mem_occupied_iff (h : d.Holds placed) {path : Dn.Path} {held : StoredEntry} :
    (path, held) ∈ d.occupied.toList ↔ ∃ e, (path, e) ∈ placed ∧ held = asStored e := by
  rw [h, List.mem_map]
  constructor
  · rintro ⟨⟨p, e⟩, hmem, heq⟩
    obtain ⟨rfl, rfl⟩ := Prod.mk.inj heq
    exact ⟨e, hmem, rfl⟩
  · rintro ⟨e, hmem, rfl⟩
    exact ⟨_, hmem, rfl⟩

/-- There is an entry exactly at the paths at which one is placed. -/
lemma Holds.entryAt?_isSome_iff (h : d.Holds placed) {path : Dn.Path} :
    (d.entryAt? path).isSome ↔ ∃ x ∈ placed, x.1 = path := by
  rw [Directory.entryAt?_isSome_iff]
  simp only [h.mem_occupied_iff]
  constructor
  · rintro ⟨held, e, hmem, -⟩
    exact ⟨_, hmem, rfl⟩
  · rintro ⟨⟨p, e⟩, hmem, rfl⟩
    exact ⟨_, e, hmem, rfl⟩

/-- The names of a directory give the places if those of the placed entries do. -/
lemma Holds.addressed_iff (h : d.Holds placed) :
    d.Addressed ↔ ∀ x ∈ placed, Dn.path? x.2.dn = some x.1 := by
  simp only [Addressed, entryAt?_eq_some_iff, h.mem_occupied_iff]
  constructor
  · intro haddressed x hx
    exact haddressed x.1 (asStored x.2) ⟨x.2, hx, rfl⟩
  · rintro hall path held ⟨e, hmem, rfl⟩
    exact hall (path, e) hmem

/-- What is stored are the placed entries, in their order. -/
lemma Holds.stored_eq (h : d.Holds placed) : d.stored = placed.map fun x => asStored x.2 := by
  rw [Directory.stored_eq, h, List.map_map]
  rfl

/-- The entries that a directory gives are the placed ones, in their order. -/
lemma Holds.entries_eq (h : d.Holds placed) : d.entries = placed.map (·.2) := by
  have htoEntry : ∀ x : Dn.Path × Entry,
      (StoredEntry.toEntry (asStored x.2)).toOption = some x.2 := by
    intro x
    rw [toEntry_asStored]
    rfl
  rw [entries, h.stored_eq, List.filterMap_map]
  simp only [Function.comp_def, htoEntry, List.filterMap_eq_map']

/-- A directory counts the placed entries. -/
lemma Holds.size_eq (h : d.Holds placed) : d.size = placed.length := by
  rw [size, h.stored_eq, List.length_map]

end Holds

/-- A sound directory holds entries, and none of them is lost when they are asked for. -/
theorem Sound.exists_holds {d : Directory} (h : d.Sound) : ∃ placed, d.Holds placed := by
  have hall : ∀ x ∈ d.occupied.toList, ∃ e, x = (x.1, asStored e) := by
    rintro ⟨path, held⟩ hheld
    obtain ⟨-, hdn, -, hvalid⟩ := h path held hheld
    obtain ⟨e, he⟩ := hvalid.exists_toEntry hdn
    exact ⟨e, by rw [← toEntry_eq_ok_iff.1 he]⟩
  unfold Holds
  revert hall
  generalize d.occupied.toList = occupied
  intro hall
  induction occupied with
  | nil => exact ⟨[], rfl⟩
  | cons x occupied ih =>
    obtain ⟨⟨e, he⟩, hall⟩ := List.forall_mem_cons.1 hall
    obtain ⟨placed, rfl⟩ := ih hall
    exact ⟨(x.1, e) :: placed, congrArg (· :: _) he⟩

/-! ### Searching -/

/-- The filter that every entry satisfies. -/
lemma filterOf_everything : filterOf "(objectclass=*)" = .ok (.present "objectclass") := rfl

/-- A search for everything finds all entries in order. -/
theorem search_everything {d : Directory} (h : d.Sound) :
    d.search ⟨"", "(objectclass=*)", .subtree⟩ = .found d.entries := by
  obtain ⟨placed, hplaced⟩ := h.exists_holds
  have hfilter : ∀ bag, (Filter.present "objectclass").holds bag = true := fun bag => rfl
  have hselect : d.select [] .subtree (.present "objectclass") = d.stored := by
    have hscope : ∀ path, inScope [] .subtree path = true := fun path => rfl
    rw [select, stored]
    simp only [hfilter, hscope, List.filter_true]
  have hall : d.stored.mapM StoredEntry.toEntry = .ok d.entries := by
    rw [mapM_eq_ok_iff, hplaced.stored_eq, hplaced.entries_eq, List.map_map, List.map_map]
    exact List.map_congr_left fun x _ => toEntry_asStored x.2
  have hfind : d.find ⟨"", "(objectclass=*)", .subtree⟩ = .ok d.entries := by
    have hroot : pathOf "" = .ok [] := rfl
    have hnode : d.hasNodeAt [] = true := rfl
    rw [← hall, ← hselect, find]
    simp only [filterOf_everything, hroot, bind, Except.bind, hnode, if_true]
  rw [search, hfind]

/-- What a search finds is an entry of the directory. -/
lemma mem_occupied_of_mem_search {d : Directory} {request : SearchRequest} {e : Entry}
    (h : e ∈ (d.search request).entries) : ∃ path, (path, asStored e) ∈ d.occupied.toList := by
  rw [search] at h
  split at h
  · next found hfind =>
    rw [find, bind_eq_ok_iff] at hfind
    obtain ⟨filter, -, hfind⟩ := hfind
    obtain ⟨base, -, hfind⟩ := bind_eq_ok_iff.1 hfind
    split at hfind
    · have hmem : Except.ok e ∈ (d.select base request.scope filter).map StoredEntry.toEntry := by
        rw [mapM_eq_ok_iff.1 hfind]
        exact List.mem_map.2 ⟨e, h, rfl⟩
      obtain ⟨held, hheld, he⟩ := List.mem_map.1 hmem
      obtain rfl := toEntry_eq_ok_iff.1 he
      rw [select, List.mem_filter, List.mem_filterMap] at hheld
      obtain ⟨⟨⟨path, node⟩, hnode, rfl⟩, -⟩ := hheld
      exact ⟨path, mem_occupied.2 (List.mem_filter.1 hnode).1⟩
    · simp at hfind
  · exact absurd h List.not_mem_nil

/-! ### Nothing is unreadable -/

/-- Entries are made of all that is stored of entries. -/
lemma exists_mapM_toEntry {stored : List StoredEntry}
    (h : ∀ held ∈ stored, ∃ e, held = asStored e) :
    ∃ entries, stored.mapM StoredEntry.toEntry = .ok entries := by
  simp only [mapM_eq_ok_iff]
  induction stored with
  | nil => exact ⟨[], rfl⟩
  | cons held stored ih =>
    obtain ⟨⟨e, rfl⟩, hstored⟩ := List.forall_mem_cons.1 h
    obtain ⟨entries, hentries⟩ := ih hstored
    exact ⟨e :: entries, by rw [List.map_cons, hentries, toEntry_asStored, List.map_cons]⟩

/-- What is stored in a sound directory is stored of an entry. -/
lemma Sound.exists_asStored {d : Directory} (h : d.Sound) {path : Dn.Path} {held : StoredEntry}
    (hheld : d.entryAt? path = some held) : ∃ e, held = asStored e := by
  obtain ⟨-, hdn, -, hvalid⟩ := h path held (entryAt?_eq_some_iff.1 hheld)
  obtain ⟨e, he⟩ := hvalid.exists_toEntry hdn
  exact ⟨e, toEntry_eq_ok_iff.1 he⟩

/-- What is at a place is what is found under every text that gives the place. -/
lemma get?_eq_some_iff {d : Directory} {dn : String} {e : Entry} :
    d.get? dn = some e ↔
      ∃ path, Dn.path? dn = some path ∧ d.entryAt? path = some (asStored e) := by
  have htoEntry : ∀ held : StoredEntry,
      (StoredEntry.toEntry held).toOption = some e ↔ held = asStored e := by
    intro held
    rw [← toEntry_eq_ok_iff]
    cases StoredEntry.toEntry held <;> simp [Except.toOption]
  simp only [get?, Option.bind_eq_bind, Option.bind_eq_some_iff, htoEntry, exists_eq_right]

/-- A search that fails says why, and it is never that an entry could not be read. -/
lemma Sound.code_search_ne {d : Directory} (h : d.Sound) (request : SearchRequest) :
    (d.search request).code ≠ .operationsError := by
  rw [search]
  split
  · exact (by decide : ResultCode.success ≠ .operationsError)
  next error hfind =>
  rcases bind_eq_error_iff.1 hfind with hfilter | ⟨filter, -, hfind⟩
  · rw [filterOf] at hfilter
    split at hfilter
    · cases hfilter
    · cases hfilter
      exact (by decide : ResultCode.protocolError ≠ .operationsError)
    · cases hfilter
      exact (by decide : ResultCode.unwillingToPerform ≠ .operationsError)
  rcases bind_eq_error_iff.1 hfind with hbase | ⟨base, -, hfind⟩
  · rw [pathOf] at hbase
    split at hbase
    · cases hbase
    · cases hbase
      exact (by decide : ResultCode.invalidDnSyntax ≠ .operationsError)
  split at hfind
  · have hselect : ∀ held ∈ d.select base request.scope filter, ∃ e, held = asStored e := by
      intro held hheld
      rw [select, List.mem_filter, List.mem_filterMap] at hheld
      obtain ⟨⟨⟨path, node⟩, hnode, rfl⟩, -⟩ := hheld
      exact h.exists_asStored (entryAt?_eq_some_iff.2 (mem_occupied.2 (List.mem_filter.1 hnode).1))
    obtain ⟨entries, hentries⟩ := exists_mapM_toEntry hselect
    cases hentries.symm.trans hfind
  · cases hfind
    exact (by decide : ResultCode.noSuchObject ≠ .operationsError)

/-- Whatever has been asked for, what the directory stores makes entries, and all of them are given:
by every text that gives the place, in the list, and to searches.  No search fails because of what
is stored, and nothing is given that is not stored. -/
theorem readable_after (records : List ChangeRecord) :
    let d := empty.after records
    (∀ path held, d.entryAt? path = some held →
      held.dn ≠ "" ∧ held.attributes.Valid ∧
        ∃ e, StoredEntry.toEntry held = .ok e ∧
          ∀ dn, Dn.path? dn = some path → d.get? dn = some e) ∧
    d.entries.length = d.size ∧
    (∀ request, (d.search request).code ≠ .operationsError) ∧
    ∀ e, (e ∈ d.entries ∨ (∃ dn, d.get? dn = some e) ∨
        ∃ request, e ∈ (d.search request).entries) →
      Entry.make e.dn e.attributes = .ok e ∧
        ∃ path held, d.entryAt? path = some held ∧ StoredEntry.toEntry held = .ok e := by
  intro d
  have hsound : d.Sound := sound_after records
  obtain ⟨placed, hplaced⟩ := hsound.exists_holds
  refine ⟨?_, ?_, hsound.code_search_ne, ?_⟩
  · intro path held hheld
    obtain ⟨-, hdn, -, hvalid⟩ := hsound path held (entryAt?_eq_some_iff.1 hheld)
    obtain ⟨e, rfl⟩ := hsound.exists_asStored hheld
    exact ⟨hdn, hvalid, e, toEntry_asStored e, fun dn hpath =>
      get?_eq_some_iff.2 ⟨path, hpath, hheld⟩⟩
  · rw [hplaced.entries_eq, hplaced.size_eq, List.length_map]
  · intro e he
    refine ⟨e.make_dn_attributes, ?_⟩
    obtain ⟨path, hheld⟩ : ∃ path, d.entryAt? path = some (asStored e) := by
      rcases he with he | ⟨dn, he⟩ | ⟨request, he⟩
      · rw [hplaced.entries_eq] at he
        obtain ⟨⟨path, e'⟩, hmem, rfl⟩ := List.mem_map.1 he
        exact ⟨path, entryAt?_eq_some_iff.2 (hplaced.mem_occupied_iff.2 ⟨e', hmem, rfl⟩)⟩
      · obtain ⟨path, -, hheld⟩ := get?_eq_some_iff.1 he
        exact ⟨path, hheld⟩
      · obtain ⟨path, hmem⟩ := mem_occupied_of_mem_search he
        exact ⟨path, entryAt?_eq_some_iff.2 hmem⟩
    exact ⟨path, asStored e, hheld, toEntry_asStored e⟩

end DirectoryExchange.Directory

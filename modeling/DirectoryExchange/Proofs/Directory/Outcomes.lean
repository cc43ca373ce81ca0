import DirectoryExchange.Proofs.Directory.DeadEnds

/-!
# What comes of adding and deleting

Whatever a directory has been through, it can be told from its entries what comes of adding
another one (`outcome_add`).  An entry that is to be deleted is refused if there is a node below it,
and that cannot be told from the entries: glue may be all that there is below.  It can where each
node below an entry has an entry below it, as is the case as long as no change leaves a way to
nothing (`outcome_delete`).
-/

namespace DirectoryExchange

/-- Whether the text names no place for an entry: it is malformed, or it is blank. -/
def Dn.Placeless (dn : String) : Prop := Dn.parse? dn = none ∨ Blank.isBlankText dn = true

/-- A text gives a place for an entry or it does not. -/
lemma Dn.placeless_or (dn : String) :
    Dn.Placeless dn ∨ ∃ path, Dn.path? dn = some path ∧ path ≠ [] := by
  cases hrdns : Dn.parse? dn with
  | none => exact .inl (.inl hrdns)
  | some rdns =>
    rcases Dn.parse?_eq_some_iff.1 hrdns with ⟨hblank, -⟩ | ⟨ts, -, hts⟩
    · exact .inl (.inr (Blank.isBlankText_iff.2 hblank))
    · refine .inr ⟨Dn.pathOf rdns, by rw [Dn.path?, hrdns]; rfl, ?_⟩
      have hlength := Dn.length_of_rdnsOfTokens? hts
      rw [← Dn.length_pathOf] at hlength
      exact List.ne_nil_of_length_pos (by omega)

/-- A text that gives no place for an entry is no name, or that of the root. -/
lemma Dn.Placeless.path?_eq {dn : String} (h : Dn.Placeless dn) :
    Dn.path? dn = none ∨ Dn.path? dn = some [] := by
  rcases h with hnone | hblank
  · exact .inl (by rw [Dn.path?, hnone]; rfl)
  · exact .inr (by rw [Dn.path?, Dn.parse?, if_pos hblank]; rfl)

/-- If a text that gives no place for an entry gives a path, it is that of the root. -/
lemma Dn.Placeless.eq_nil {dn : String} (h : Dn.Placeless dn) {path : Dn.Path}
    (hpath : Dn.path? dn = some path) : path = [] := by
  rcases h.path?_eq with hnone | hroot
  · rw [hnone] at hpath
    cases hpath
  · exact Option.some.inj (hpath.symm.trans hroot)

namespace Directory

variable {d : Directory} {dn : String} {path : Dn.Path}

/-- A text that gives no place for an entry is refused as a name. -/
lemma entryPathOf_of_placeless (h : Dn.Placeless dn) : entryPathOf dn = .error (invalidDn dn) := by
  rw [entryPathOf, pathOf]
  rcases h.path?_eq with hnone | hroot
  · rw [hnone]
    rfl
  · rw [hroot]
    rfl

/-! ### Adding -/

/-- What comes of adding an entry: the answer, and the directory behind it. -/
inductive AddOutcome (d : Directory) (e : Entry) : Except OperationError Unit × Directory → Prop
  /-- The name is malformed or blank. -/
  | placeless (hdn : Dn.Placeless e.dn) : AddOutcome d e (.error (.directory (invalidDn e.dn)), d)
  /-- There is no parent, although there is an entry further up. -/
  | orphaned {path : Dn.Path} (hdn : Dn.path? e.dn = some path) (hne : path ≠ [])
      (horphaned : d.Orphaned path) :
      AddOutcome d e (.error (.directory
        ⟨.noSuchObject, s!"parent of {Quoted.quote e.dn} does not exist"⟩), d)
  /-- An entry is there already. -/
  | taken {path : Dn.Path} (hdn : Dn.path? e.dn = some path) (hne : path ≠ [])
      (hgrounded : ¬ d.Orphaned path) (htaken : (d.entryAt? path).isSome) :
      AddOutcome d e (.error (.directory
        ⟨.entryAlreadyExists, s!"{Quoted.quote e.dn} already exists"⟩), d)
  /-- The entry is at its place, with nodes on the way to it, and the rest is as it was. -/
  | added {path : Dn.Path} {d' : Directory} (hdn : Dn.path? e.dn = some path) (hne : path ≠ [])
      (hgrounded : ¬ d.Orphaned path) (hvacant : d.entryAt? path = none)
      (hadded : d'.entryAt? path = some ⟨Blank.trim e.dn, .ofAttributes e.attributes⟩)
      (hothers : ∀ p, p ≠ path → d'.entryAt? p = d.entryAt? p)
      (hnodes : ∀ p, d'.hasNodeAt p = true ↔ d.hasNodeAt p = true ∨ p <+: path) :
      AddOutcome d e (.ok (), d')

/-- Whatever the directory has been through, the outcome of an addition is as it has to be. -/
theorem outcome_add (records : List ChangeRecord) (e : Entry) :
    (empty.after records).AddOutcome e (connection.apply (empty.after records) (.add e)) := by
  generalize hd : empty.after records = d
  have hroot : d.entryAt? [] = none := hd ▸ (sound_after records).entryAt?_nil
  rw [connection_apply, Directory.apply, Directory.add]
  rcases Dn.placeless_or e.dn with hplaceless | ⟨path, hpath, hne⟩
  · rw [entryPathOf_of_placeless hplaceless]
    exact .placeless hplaceless
  · rw [entryPathOf_eq_ok_iff.2 ⟨hpath, hne⟩, ok_bind]
    by_cases horphaned : d.Orphaned path
    · rw [if_pos ((orphaned_iff hroot).2 horphaned)]
      exact .orphaned hpath hne horphaned
    rw [if_neg (mt (orphaned_iff hroot).1 horphaned)]
    cases hthere : d.entryAt? path with
    | some held => exact .taken hpath hne horphaned (by rw [hthere]; rfl)
    | none =>
      refine .added hpath hne horphaned hthere ?_ ?_ fun p => hasNodeAt_putEntry.trans or_comm
      · rw [entryAt?_of_occupied (occupied_putEntry _ _ _), if_pos rfl]
      · intro p hp
        rw [entryAt?_of_occupied (occupied_putEntry _ _ _), if_neg hp]

/-! ### Deleting -/

/-- Whether there is a node below the place. -/
def NodeBelow (d : Directory) (path : Dn.Path) : Prop :=
  ∃ p, isBelow p path = true ∧ d.hasNodeAt p = true

/-- Whether there is an entry below the place. -/
def EntryBelow (d : Directory) (path : Dn.Path) : Prop :=
  ∃ p, isBelow p path = true ∧ (d.entryAt? p).isSome

/-- What comes of deleting the entry of that name, if one is refused that has something `below` it:
the answer, and the directory behind it. -/
inductive DeleteOutcome (d : Directory) (below : Dn.Path → Prop) (dn : String) :
    Except OperationError Unit × Directory → Prop
  /-- The name is malformed or blank. -/
  | placeless (hdn : Dn.Placeless dn) :
      DeleteOutcome d below dn (.error (.directory (invalidDn dn)), d)
  /-- There is no entry. -/
  | absent {path : Dn.Path} (hdn : Dn.path? dn = some path) (hne : path ≠ [])
      (habsent : d.entryAt? path = none) :
      DeleteOutcome d below dn (.error (.directory (noSuchObject dn)), d)
  /-- There is something below the entry. -/
  | refused {path : Dn.Path} (hdn : Dn.path? dn = some path) (hne : path ≠ [])
      (hthere : (d.entryAt? path).isSome) (hbelow : below path) :
      DeleteOutcome d below dn (.error (.directory
        ⟨.notAllowedOnNonLeaf, s!"{Quoted.quote dn} has children"⟩), d)
  /-- The entry is gone, and the others are as they were. -/
  | deleted {path : Dn.Path} {d' : Directory} (hdn : Dn.path? dn = some path) (hne : path ≠ [])
      (hthere : (d.entryAt? path).isSome) (hleaf : ¬ below path)
      (hothers : ∀ p, d'.entryAt? p = if p = path then none else d.entryAt? p) :
      DeleteOutcome d below dn (.ok (), d')

/-- The test for leaves looks for a node below the place, glue included. -/
lemma any_isBelow_iff (hne : path ≠ []) :
    (d.nodes.toList.any fun (p, _) => isBelow p path) = true ↔ d.NodeBelow path := by
  rw [List.any_eq_true, NodeBelow]
  simp only [hasNodeAt_iff]
  constructor
  · rintro ⟨⟨p, node⟩, hmem, hbelow⟩
    exact ⟨p, hbelow, .inr ⟨node, hmem⟩⟩
  · rintro ⟨p, hbelow, rfl | ⟨node, hmem⟩⟩
    · exact absurd (List.prefix_nil.1 (isBelow_iff.1 hbelow).1) hne
    · exact ⟨(p, node), hmem, hbelow⟩

lemma EntryBelow.nodeBelow (h : d.EntryBelow path) : d.NodeBelow path := by
  obtain ⟨p, hbelow, hentry⟩ := h
  obtain ⟨held, hheld⟩ := Option.isSome_iff_exists.1 hentry
  exact ⟨p, hbelow, hasNodeAt_of_entryAt? hheld⟩

/-- If every node leads to an entry, then a node below means an entry below. -/
lemma LeadsOn.entryBelow (h : d.LeadsOn) (hbelow : d.NodeBelow path) : d.EntryBelow path := by
  obtain ⟨p, hp, hnode⟩ := hbelow
  obtain ⟨hbegins, hne⟩ := isBelow_iff.1 hp
  have hroot : p ≠ [] := by
    rintro rfl
    exact hne (List.prefix_nil.1 hbegins).symm
  obtain ⟨q, ⟨rest, rfl⟩, hentry⟩ := h p hroot hnode
  refine ⟨p ++ rest, isBelow_iff.2 ⟨hbegins.trans (List.prefix_append p rest), ?_⟩, hentry⟩
  rintro rfl
  exact hne (hbegins.eq_of_length_le (by simp)).symm

/-- Where there is an entry, it is refused for what is below it, and for nothing else. -/
lemma DeleteOutcome.refused_iff {below : Dn.Path → Prop}
    {answer : Except OperationError Unit × Directory} (h : d.DeleteOutcome below dn answer)
    (hpath : Dn.path? dn = some path) (hne : path ≠ []) (hthere : (d.entryAt? path).isSome) :
    answer.1 = .error (.directory
      ⟨.notAllowedOnNonLeaf, s!"{Quoted.quote dn} has children"⟩) ↔ below path := by
  cases h with
  | placeless hdn => exact absurd (hdn.eq_nil hpath) hne
  | absent hdn _ habsent =>
    obtain rfl := Option.some.inj (hpath.symm.trans hdn)
    rw [habsent] at hthere
    cases hthere
  | refused hdn _ _ hbelow =>
    obtain rfl := Option.some.inj (hpath.symm.trans hdn)
    exact iff_of_true rfl hbelow
  | deleted hdn _ _ hleaf _ =>
    obtain rfl := Option.some.inj (hpath.symm.trans hdn)
    exact iff_of_false nofun hleaf

/-- What is deleted or refused on account of the nodes below is so on account of other things below
if these are there together. -/
lemma DeleteOutcome.congr {below below' : Dn.Path → Prop}
    {answer : Except OperationError Unit × Directory} (h : d.DeleteOutcome below dn answer)
    (hbelow : ∀ path, Dn.path? dn = some path → (d.entryAt? path).isSome →
      (below path ↔ below' path)) : d.DeleteOutcome below' dn answer := by
  cases h with
  | placeless hdn => exact .placeless hdn
  | absent hdn hne habsent => exact .absent hdn hne habsent
  | refused hdn hne hthere h => exact .refused hdn hne hthere ((hbelow _ hdn hthere).1 h)
  | deleted hdn hne hthere h hothers =>
    exact .deleted hdn hne hthere (mt (hbelow _ hdn hthere).2 h) hothers

/-- Whatever the directory is, a deletion is refused for the sake of nodes below. -/
lemma outcome_delete_nodeBelow (d : Directory) (dn : String) (hdn : dn ≠ "") :
    d.DeleteOutcome d.NodeBelow dn (connection.apply d (.delete dn hdn)) := by
  rw [connection_apply, Directory.apply, Directory.delete]
  rcases Dn.placeless_or dn with hplaceless | ⟨path, hpath, hne⟩
  · rw [entryPathOf_of_placeless hplaceless]
    exact .placeless hplaceless
  · rw [entryPathOf_eq_ok_iff.2 ⟨hpath, hne⟩, ok_bind]
    cases hthere : d.entryAt? path with
    | none => exact .absent hpath hne hthere
    | some held =>
      have hsome : (d.entryAt? path).isSome := by rw [hthere]; rfl
      rw [if_neg (by simp)]
      by_cases hbelow : d.NodeBelow path
      · rw [if_pos ((any_isBelow_iff hne).2 hbelow)]
        exact .refused hpath hne hsome hbelow
      · rw [if_neg (mt (any_isBelow_iff hne).1 hbelow)]
        have hleaf : ∀ x ∈ d.nodes.toList, isBelow x.1 path = false := by
          simpa using mt (any_isBelow_iff hne).1 hbelow
        exact .deleted hpath hne hsome hbelow (entryAt?_prune_of_leaf hleaf)

/-- Whatever the directory has been through, an entry is deleted unless a node is below it.  It is
refused exactly for an entry below it if there is one wherever there is a node, and that is so if no
change has left a way to nothing. -/
theorem outcome_delete (records : List ChangeRecord) (dn : String) (hdn : dn ≠ "") :
    let d := empty.after records
    let answer := connection.apply d (.delete dn hdn)
    d.DeleteOutcome d.NodeBelow dn answer ∧
      (d.DeleteOutcome d.EntryBelow dn answer ↔
        ∀ path, Dn.path? dn = some path → (d.entryAt? path).isSome → d.NodeBelow path →
          d.EntryBelow path) ∧
      ((∀ n record, records[n]? = some record →
          (∃ d', (empty.after (records.take n)).apply record = .ok d') →
          (empty.after (records.take n)).KeepsLeading record) →
        d.DeleteOutcome d.EntryBelow dn answer) := by
  intro d answer
  have hnodes : d.DeleteOutcome d.NodeBelow dn answer := outcome_delete_nodeBelow d dn hdn
  have hiff : d.DeleteOutcome d.EntryBelow dn answer ↔
      ∀ path, Dn.path? dn = some path → (d.entryAt? path).isSome → d.NodeBelow path →
        d.EntryBelow path := by
    constructor
    · intro hentries path hpath hthere hbelow
      have hne : path ≠ [] := by
        rintro rfl
        rw [(sound_after records).entryAt?_nil] at hthere
        cases hthere
      exact (hentries.refused_iff hpath hne hthere).1
        ((hnodes.refused_iff hpath hne hthere).2 hbelow)
    · intro hall
      exact hnodes.congr fun path hpath hthere =>
        ⟨hall path hpath hthere, EntryBelow.nodeBelow⟩
  refine ⟨hnodes, hiff, fun hkeeps => hiff.2 fun path _ _ => ?_⟩
  -- where every change keeps the ways leading on, whatever has a node below has an entry below
  have hleads := (leadsOn_after_iff records).2 hkeeps records.length
  rw [List.take_length] at hleads
  exact hleads.entryBelow

/-- A parent is refused as long as its child is there. -/
theorem outcome_delete_parent :
    let parent : Entry := ⟨"dc=c", [⟨"dc", [[0x63]], by decide, by decide⟩], by decide, by decide⟩
    let child : Entry := ⟨"ou=b,dc=c", [⟨"ou", [[0x62]], by decide, by decide⟩], by decide,
      by decide⟩
    let d := empty.after [.add parent, .add child]
    (connection.apply d (.delete "dc=c" (by decide))).1 =
        .error (.directory ⟨.notAllowedOnNonLeaf, "\"dc=c\" has children"⟩) ∧
      d.DeleteOutcome d.EntryBelow "dc=c" (connection.apply d (.delete "dc=c" (by decide))) := by
  intro parent child d
  refine ⟨by decide +kernel,
    (outcome_delete [.add parent, .add child] "dc=c" (by decide)).2.1.2 fun path hpath _ _ => ?_⟩
  have hdn : Dn.path? "dc=c" = some [[⟨"dc", [0x63]⟩]] := by decide +kernel
  obtain rfl := Option.some.inj (hdn.symm.trans hpath)
  exact ⟨[[⟨"dc", [0x63]⟩], [⟨"ou", [0x62]⟩]], by decide, by decide +kernel⟩

/-- The only entry of a directory can be refused, for the glue that is below it. -/
theorem refused_above_glue :
    let low : Entry := ⟨"cn=x,ou=b,dc=c", [⟨"cn", [[0x78]], by decide, by decide⟩],
      by decide, by decide⟩
    let high : Entry := ⟨"dc=c", [⟨"dc", [[0x63]], by decide, by decide⟩], by decide, by decide⟩
    let d := empty.after [.add low, .delete "cn=x,ou=b,dc=c" (by decide), .add high]
    (connection.apply d (.delete "dc=c" (by decide))).1 =
        .error (.directory ⟨.notAllowedOnNonLeaf, "\"dc=c\" has children"⟩) ∧
      d.entries = [high] ∧
      ¬ d.DeleteOutcome d.EntryBelow "dc=c" (connection.apply d (.delete "dc=c" (by decide))) := by
  intro low high d
  refine ⟨by decide +kernel, by decide +kernel, fun houtcome => ?_⟩
  have hrefused : (connection.apply d (.delete "dc=c" (by decide))).1 = .error (.directory
      ⟨.notAllowedOnNonLeaf, s!"{Quoted.quote high.dn} has children"⟩) := by
    decide +kernel
  have hdn : Dn.path? "dc=c" = some [[⟨"dc", [0x63]⟩]] := by decide +kernel
  obtain ⟨p, hbelow, hentry⟩ :=
    (houtcome.refused_iff hdn (by decide) (by decide +kernel)).1 hrefused
  obtain ⟨held, hmem⟩ := entryAt?_isSome_iff.1 hentry
  have hall : d.occupied.toList = [([[⟨"dc", [0x63]⟩]], asStored high)] := by decide +kernel
  rw [hall, List.mem_singleton] at hmem
  obtain ⟨rfl, -⟩ := Prod.mk.inj hmem
  exact (isBelow_iff.1 hbelow).2 rfl

end Directory

end DirectoryExchange

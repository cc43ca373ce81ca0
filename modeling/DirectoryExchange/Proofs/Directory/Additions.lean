import DirectoryExchange.Proofs.Directory.Runs
import DirectoryExchange.Proofs.Transfer.Success

/-!
# The order of additions

What entries leave behind in a directory that takes all of them can be told from the entries alone
(`NodeAfter`): every one of them is at its place, there is glue on the way to it wherever nothing
was, and the rest is as before.  So it does not matter in which order they were added, though in
another order another of them puts in the glue (`takes_adds_perm`).
-/

namespace DirectoryExchange.Directory

/-- What is at a path when the entries have been added to the directory, in whatever order. -/
inductive NodeAfter (d : Directory) (entries : List Entry) (path : Dn.Path) :
    Option StoredEntry → Prop
  /-- One of the entries, if it belongs there. -/
  | added {e : Entry} (hmem : e ∈ entries) (hpath : Dn.path? e.dn = some path) :
      NodeAfter d entries path (some ⟨Blank.trim e.dn, .ofAttributes e.attributes⟩)
  /-- What was there before, if none of them belongs there. -/
  | kept {node : Option StoredEntry} (hnone : ∀ e ∈ entries, Dn.path? e.dn ≠ some path)
      (hold : (path, node) ∈ d.nodes.toList) : NodeAfter d entries path node
  /-- Glue, if none of them belongs there and nothing was there, but one belongs below. -/
  | glue {e : Entry} {place : Dn.Path} (hnone : ∀ e ∈ entries, Dn.path? e.dn ≠ some path)
      (hnothing : ∀ node, (path, node) ∉ d.nodes.toList) (hmem : e ∈ entries)
      (hplace : Dn.path? e.dn = some place) (hne : path ≠ []) (hbelow : isBelow place path = true) :
      NodeAfter d entries path none

variable {d next d' : Directory} {e : Entry} {rest entries entries' : List Entry}
  {path : Dn.Path} {node : Option StoredEntry}

/-- What entries leave behind does not depend on their order. -/
lemma NodeAfter.of_perm (hperm : entries.Perm entries') (h : NodeAfter d entries path node) :
    NodeAfter d entries' path node := by
  have hmem : ∀ e, e ∈ entries ↔ e ∈ entries' := fun e => hperm.mem_iff
  cases h with
  | added he hpath => exact .added ((hmem _).1 he) hpath
  | kept hnone hold => exact .kept (fun e he => hnone e ((hmem e).2 he)) hold
  | glue hnone hnothing he hplace hne hbelow =>
    exact .glue (fun e he => hnone e ((hmem e).2 he)) hnothing ((hmem _).1 he) hplace hne hbelow

/-! ### One addition -/

/-- An entry is added where none was, and behind it there is what has to be there. -/
lemma nodeAfter_of_add (h : d.add e.dn e.attributes = .ok next) :
    (∃ place, Dn.path? e.dn = some place ∧ d.entryAt? place = none) ∧
      ∀ path node, (path, node) ∈ next.nodes.toList ↔ NodeAfter d [e] path node := by
  obtain ⟨place, hplace, hvacant, rfl⟩ := add_eq_ok h
  refine ⟨⟨place, hplace, hvacant⟩, fun path node => ?_⟩
  have hself : e ∈ [e] := List.mem_singleton_self e
  have helsewhere : (∀ e' ∈ [e], Dn.path? e'.dn ≠ some path) ↔ path ≠ place := by
    rw [List.forall_mem_singleton, hplace, ne_comm, Ne, Option.some_inj]
  rw [putEntry, Nodes.mem_put_iff, Nodes.mem_pave_iff]
  constructor
  · rintro (⟨rfl, rfl⟩ | ⟨hold | ⟨rfl, hway, hnothing⟩, hne⟩)
    · exact .added hself hplace
    · exact .kept (helsewhere.2 hne) hold
    · have hroot := (Dn.mem_beginnings.1 hway).1
      exact .glue (helsewhere.2 hne) hnothing hself hplace hroot
        ((isBelow_iff_of_ne_nil hroot).2 hway)
  · intro hnode
    cases hnode with
    | added hmem hpath =>
      obtain rfl := List.mem_singleton.1 hmem
      exact .inl ⟨Option.some.inj (hpath.symm.trans hplace), rfl⟩
    | kept hnone hold => exact .inr ⟨.inl hold, helsewhere.1 hnone⟩
    | glue hnone hnothing hmem hplace' hne hbelow =>
      obtain rfl := List.mem_singleton.1 hmem
      obtain rfl := Option.some.inj (hplace'.symm.trans hplace)
      exact .inr ⟨.inr ⟨rfl, (isBelow_iff_of_ne_nil hne).1 hbelow, hnothing⟩, helsewhere.1 hnone⟩

/-- If none of the others belongs where the first entry does, what they leave behind it is what all
of them leave. -/
lemma nodeAfter_cons_iff
    (hfirst : ∀ path node, (path, node) ∈ next.nodes.toList ↔ NodeAfter d [e] path node)
    (hothers : ∀ e' ∈ rest, ∀ path, Dn.path? e'.dn = some path → Dn.path? e.dn ≠ some path) :
    NodeAfter next rest path node ↔ NodeAfter d (e :: rest) path node := by
  have hself : e ∈ [e] := List.mem_singleton_self e
  have hhead : e ∈ e :: rest := List.mem_cons_self
  have hsingle : Dn.path? e.dn ≠ some path → ∀ e' ∈ [e], Dn.path? e'.dn ≠ some path :=
    fun hne => List.forall_mem_singleton.2 hne
  constructor
  · intro h
    cases h with
    | added hmem hpath => exact .added (List.mem_cons_of_mem e hmem) hpath
    | kept hnone hold =>
      cases (hfirst path node).1 hold with
      | added hmem hpath =>
        obtain rfl := List.mem_singleton.1 hmem
        exact .added hhead hpath
      | kept hnone' hold => exact .kept (List.forall_mem_cons.2 ⟨hnone' e hself, hnone⟩) hold
      | glue hnone' hnothing hmem hplace hne hbelow =>
        obtain rfl := List.mem_singleton.1 hmem
        exact .glue (List.forall_mem_cons.2 ⟨hnone' _ hself, hnone⟩) hnothing hhead hplace hne
          hbelow
    | glue hnone hnothing hmem hplace hne hbelow =>
      have hnone' : Dn.path? e.dn ≠ some path := fun hpath =>
        hnothing _ ((hfirst _ _).2 (.added hself hpath))
      refine .glue (List.forall_mem_cons.2 ⟨hnone', hnone⟩) (fun node hold => ?_)
        (List.mem_cons_of_mem e hmem) hplace hne hbelow
      exact hnothing node ((hfirst _ _).2 (.kept (hsingle hnone') hold))
  · intro h
    cases h with
    | added hmem hpath =>
      rcases List.mem_cons.1 hmem with rfl | hmem
      · refine .kept (fun e' he' hpath' => ?_) ((hfirst _ _).2 (.added hself hpath))
        exact hothers e' he' path hpath' hpath
      · exact .added hmem hpath
    | kept hnone hold =>
      obtain ⟨hnone', hnone⟩ := List.forall_mem_cons.1 hnone
      exact .kept hnone ((hfirst _ _).2 (.kept (hsingle hnone') hold))
    | glue hnone hnothing hmem hplace hne hbelow =>
      obtain ⟨hnone', hnone⟩ := List.forall_mem_cons.1 hnone
      -- the first entry has put in the glue, or it is left to the others
      by_cases hthere : (path, none) ∈ next.nodes.toList
      · exact .kept hnone hthere
      rcases List.mem_cons.1 hmem with rfl | hmem
      · exact absurd ((hfirst _ _).2 (.glue (hsingle hnone') hnothing hself hplace hne hbelow))
          hthere
      · refine .glue hnone (fun node hnode => ?_) hmem hplace hne hbelow
        cases (hfirst _ _).1 hnode with
        | added hmem hpath => exact hsingle hnone' _ hmem hpath
        | kept _ hold => exact hnothing _ hold
        | glue _ _ _ _ _ _ => exact hthere hnode

/-! ### Additions one after the other -/

/-- Entries that are all added belong where no entry was, and behind them there is what has to be
there. -/
theorem nodeAfter_of_takes (h : Transfer.Takes connection d (entries.map .add) d') :
    (∀ e ∈ entries, ∀ path, Dn.path? e.dn = some path → d.entryAt? path = none) ∧
      ∀ path node, (path, node) ∈ d'.nodes.toList ↔ NodeAfter d entries path node := by
  induction entries generalizing d with
  | nil =>
    cases h
    refine ⟨fun e he => absurd he List.not_mem_nil, fun path node => ⟨?_, ?_⟩⟩
    · exact .kept fun e he => absurd he List.not_mem_nil
    · intro hnode
      cases hnode with
      | kept _ hold => exact hold
      | added hmem _ => exact absurd hmem List.not_mem_nil
      | glue _ _ hmem _ _ _ => exact absurd hmem List.not_mem_nil
  | cons e rest ih =>
    obtain _ | ⟨hfirst, hrest⟩ := h
    obtain ⟨⟨place, hplace, hvacant⟩, hnext⟩ := nodeAfter_of_add (apply_of_accepted hfirst)
    obtain ⟨hfree, hlast⟩ := ih hrest
    have hentry : ∀ {path held}, NodeAfter d [e] path (some held) →
        ∀ e' ∈ rest, Dn.path? e'.dn ≠ some path := by
      intro path held hnode e' he' hpath
      have hthere := entryAt?_eq_some_iff.2 (mem_occupied.2 ((hnext _ _).2 hnode))
      rw [hfree e' he' path hpath] at hthere
      exact absurd hthere (Option.some_ne_none held).symm
    refine ⟨List.forall_mem_cons.2 ⟨?_, ?_⟩, fun path node => ?_⟩
    · intro path hpath
      rwa [← Option.some.inj (hplace.symm.trans hpath)]
    · intro e' he' path hpath
      rw [Option.eq_none_iff_forall_ne_some]
      intro held hheld
      have hold := mem_occupied.1 (entryAt?_eq_some_iff.1 hheld)
      refine hentry (.kept (List.forall_mem_singleton.2 fun hsame => ?_) hold) e' he' hpath
      obtain rfl := Option.some.inj (hplace.symm.trans hsame)
      rw [hvacant] at hheld
      exact absurd hheld (Option.some_ne_none held).symm
    · rw [hlast]
      refine nodeAfter_cons_iff hnext fun e' he' path hpath' hpath => ?_
      exact hentry (.added (List.mem_singleton_self e) hpath) e' he' hpath'

/-- If a directory takes the same entries in two orders, it is the same behind both: every entry is
at its place as it was added, there is glue where they need it, and the rest is as before. -/
theorem takes_adds_perm {d₁ d₂ : Directory} (hperm : entries.Perm entries')
    (h₁ : Transfer.Takes connection d (entries.map .add) d₁)
    (h₂ : Transfer.Takes connection d (entries'.map .add) d₂) :
    d₁ = d₂ ∧ ∀ path node, (path, node) ∈ d₁.nodes.toList ↔ NodeAfter d entries path node := by
  obtain ⟨-, hnodes₁⟩ := nodeAfter_of_takes h₁
  obtain ⟨-, hnodes₂⟩ := nodeAfter_of_takes h₂
  have hnodes : d₁.nodes = d₂.nodes := by
    refine SortedMap.eq_of_mem_iff ?_
    rintro ⟨path, node⟩
    rw [hnodes₁, hnodes₂]
    exact ⟨.of_perm hperm, .of_perm hperm.symm⟩
  exact ⟨Directory.ext hnodes, hnodes₁⟩

/-- A child in front of its parent leaves behind what the parent in front of the child does. -/
theorem takes_adds_perm_childFirst :
    let parent : Entry := ⟨"ou=b,dc=c", [⟨"ou", [[0x62]], by decide, by decide⟩], by decide,
      by decide⟩
    let child : Entry := ⟨"cn=a,ou=b,dc=c", [⟨"cn", [[0x61]], by decide, by decide⟩], by decide,
      by decide⟩
    let childFirst := empty.after [.add child, .add parent]
    let parentFirst := empty.after [.add parent, .add child]
    [child, parent].Perm [parent, child] ∧
      Transfer.Takes connection empty ([child, parent].map .add) childFirst ∧
      Transfer.Takes connection empty ([parent, child].map .add) parentFirst ∧
      childFirst = parentFirst ∧ ([[⟨"dc", [0x63]⟩]], none) ∈ childFirst.nodes.toList := by
  intro parent child childFirst parentFirst
  have haccepted : ∀ {d record}, (connection.apply d record).1 = .ok () →
      connection.apply d record = (.ok (), d.after [record]) := fun h => Prod.ext h rfl
  have hperm : [child, parent].Perm [parent, child] := .swap parent child []
  have hchildFirst : Transfer.Takes connection empty ([child, parent].map .add) childFirst :=
    .cons (haccepted (by decide +kernel)) (.cons (haccepted (by decide +kernel)) (.nil _))
  have hparentFirst : Transfer.Takes connection empty ([parent, child].map .add) parentFirst :=
    .cons (haccepted (by decide +kernel)) (.cons (haccepted (by decide +kernel)) (.nil _))
  obtain ⟨hsame, hnodes⟩ := takes_adds_perm hperm hchildFirst hparentFirst
  have hnone : ∀ e ∈ [child, parent], Dn.path? e.dn ≠ some [[⟨"dc", [0x63]⟩]] := by
    decide +kernel
  have hplace : Dn.path? child.dn =
      some [[⟨"dc", [0x63]⟩], [⟨"ou", [0x62]⟩], [⟨"cn", [0x61]⟩]] := by
    decide +kernel
  refine ⟨hperm, hchildFirst, hparentFirst, hsame, (hnodes _ _).2 ?_⟩
  exact .glue hnone (fun _ => List.not_mem_nil) List.mem_cons_self hplace (by decide)
    (by decide +kernel)

end DirectoryExchange.Directory

import DirectoryExchange.Model.Entry
import DirectoryExchange.Proofs.Traversal

/-!
# Drafts of entries

A draft into which the attributes of an entry are pushed value by value gives that entry again
(`build_gather`), and whatever is pushed, the names of the entry are names that were pushed
(`forall_name_of_build`).  Both formats are read through drafts.
-/

namespace DirectoryExchange.EntryDraft

/-! ### Pushing under a name -/

/-- A value under a name that is not there yet begins a group of its own. -/
lemma addTo_of_new {name : String} {groups : List (String × List Bytes)}
    (h : ∀ g ∈ groups, ¬ sameName g.1 name) (value : Bytes) :
    addTo name value groups = groups ++ [(name, [value])] := by
  induction groups with
  | nil => rfl
  | cons g groups ih =>
    obtain ⟨spelling, values⟩ := g
    obtain ⟨hg, hgroups⟩ := List.forall_mem_cons.1 h
    rw [addTo, if_neg hg, ih hgroups, List.cons_append]

/-- A value under the name of the last group joins it. -/
lemma addTo_of_last {name : String} {groups : List (String × List Bytes)}
    (h : ∀ g ∈ groups, ¬ sameName g.1 name) (values : List Bytes) (value : Bytes) :
    addTo name value (groups ++ [(name, values)]) = groups ++ [(name, values ++ [value])] := by
  induction groups with
  | nil => rw [List.nil_append, addTo, if_pos (sameName_refl name), List.nil_append]
  | cons g groups ih =>
    obtain ⟨spelling, held⟩ := g
    obtain ⟨hg, hgroups⟩ := List.forall_mem_cons.1 h
    rw [List.cons_append, addTo, if_neg hg, ih hgroups, List.cons_append]

@[simp] lemma dn_pushAll (d : EntryDraft) (name : String) (values : List Bytes) :
    (d.pushAll name values).dn = d.dn := by
  induction values generalizing d with
  | nil => rfl
  | cons value values ih => rw [pushAll_cons, ih, dn_push]

/-- Values pushed under the last name are put behind those that it has. -/
lemma pushAll_of_last {d : EntryDraft} {name : String} {groups : List (String × List Bytes)}
    {held : List Bytes} (hd : d.groups = groups ++ [(name, held)])
    (h : ∀ g ∈ groups, ¬ sameName g.1 name) (values : List Bytes) :
    (d.pushAll name values).groups = groups ++ [(name, held ++ values)] := by
  induction values generalizing d held with
  | nil => rw [pushAll_nil, hd, List.append_nil]
  | cons value values ih =>
    have hpush : (d.push name value).groups = groups ++ [(name, held ++ [value])] := by
      rw [groups_push, hd, addTo_of_last h]
    rw [pushAll_cons, ih hpush, List.append_assoc, List.singleton_append]

/-- Values under a name that is not there yet begin a group of their own. -/
theorem groups_pushAll_of_new {d : EntryDraft} {name : String} {values : List Bytes}
    (hvalues : values ≠ []) (h : ∀ g ∈ d.groups, ¬ sameName g.1 name) :
    (d.pushAll name values).groups = d.groups ++ [(name, values)] := by
  cases values with
  | nil => exact absurd rfl hvalues
  | cons value values =>
    have hpush : (d.push name value).groups = d.groups ++ [(name, [value])] := by
      rw [groups_push, addTo_of_new h]
    rw [pushAll_cons, pushAll_of_last hpush h, List.singleton_append]

/-! ### Gathering attributes -/

/-- The draft into which all values of the groups have been pushed. -/
def pushGroups (d : EntryDraft) (groups : List (String × List Bytes)) : EntryDraft :=
  groups.foldl (fun d g => d.pushAll g.1 g.2) d

@[simp] lemma pushGroups_cons (d : EntryDraft) (g : String × List Bytes)
    (rest : List (String × List Bytes)) :
    d.pushGroups (g :: rest) = (d.pushAll g.1 g.2).pushGroups rest := rfl

@[simp] lemma dn_pushGroups (d : EntryDraft) (groups : List (String × List Bytes)) :
    (d.pushGroups groups).dn = d.dn := by
  induction groups generalizing d with
  | nil => rfl
  | cons g rest ih => rw [pushGroups_cons, ih, dn_pushAll]

/-- Groups of different names that are not there yet come behind the others, those without values
excepted. -/
lemma groups_pushGroups {d : EntryDraft} {groups : List (String × List Bytes)}
    (hdistinct : (groups.map (·.1)).Pairwise fun a b => ¬ sameName a b)
    (hnew : ∀ g ∈ groups, ∀ h ∈ d.groups, ¬ sameName h.1 g.1) :
    (d.pushGroups groups).groups = d.groups ++ groups.filter fun g => g.2 ≠ [] := by
  induction groups generalizing d with
  | nil => exact (List.append_nil _).symm
  | cons g rest ih =>
    obtain ⟨name, values⟩ := g
    obtain ⟨hg, hrest⟩ := List.pairwise_cons.1 hdistinct
    obtain ⟨hnewg, hnewrest⟩ := List.forall_mem_cons.1 hnew
    rw [pushGroups_cons]
    by_cases hvalues : values = []
    · subst hvalues
      rw [pushAll_nil, ih hrest hnewrest, List.filter_cons_of_neg (by simp)]
    · have hpush := groups_pushAll_of_new hvalues hnewg
      have hbehind : ∀ other ∈ rest, ∀ h ∈ (d.pushAll name values).groups,
          ¬ sameName h.1 other.1 := by
        intro other hother h hh
        rw [hpush, List.mem_append, List.mem_singleton] at hh
        rcases hh with hh | rfl
        · exact hnewrest other hother h hh
        · exact hg other.1 (List.mem_map_of_mem hother)
      rw [ih hrest hbehind, hpush, List.filter_cons_of_pos (by simpa using hvalues),
        List.append_assoc, List.singleton_append]

/-- The draft into which all values of the attributes have been pushed. -/
def gather (d : EntryDraft) (attributes : List Attribute) : EntryDraft :=
  attributes.foldl (fun d a => d.pushAll a.name a.values) d

@[simp] lemma gather_nil (d : EntryDraft) : d.gather [] = d := rfl

@[simp] lemma gather_cons (d : EntryDraft) (a : Attribute) (rest : List Attribute) :
    d.gather (a :: rest) = (d.pushAll a.name a.values).gather rest := rfl

/-- To gather attributes is to push their values as groups. -/
lemma gather_eq (d : EntryDraft) (attributes : List Attribute) :
    d.gather attributes = d.pushGroups (attributes.map fun a => (a.name, a.values)) := by
  rw [gather, pushGroups, List.foldl_map]

@[simp] lemma dn_gather (d : EntryDraft) (attributes : List Attribute) :
    (d.gather attributes).dn = d.dn := by
  rw [gather_eq, dn_pushGroups]

/-- New attributes are gathered as they are, behind the groups there. -/
lemma groups_gather {d : EntryDraft} {attributes : List Attribute}
    (hdistinct : attributes.Pairwise fun a b => ¬ sameName a.name b.name)
    (hnew : ∀ a ∈ attributes, ∀ g ∈ d.groups, ¬ sameName g.1 a.name) :
    (d.gather attributes).groups = d.groups ++ attributes.map fun a => (a.name, a.values) := by
  have hvalues : (attributes.map fun a => (a.name, a.values)).filter (fun g => g.2 ≠ []) =
      attributes.map fun a => (a.name, a.values) := by
    refine List.filter_eq_self.2 ?_
    intro g hg
    obtain ⟨a, -, rfl⟩ := List.mem_map.1 hg
    exact decide_eq_true a.values_ne
  rw [gather_eq, groups_pushGroups, hvalues]
  · rwa [List.map_map, List.pairwise_map]
  · intro g hg
    obtain ⟨a, ha, rfl⟩ := List.mem_map.1 hg
    exact hnew a ha

/-- Groups make attributes if these have their names and values. -/
lemma map_make_eq_iff {groups : List (String × List Bytes)} {attributes : List Attribute} :
    (groups.map fun (name, values) => Attribute.make name values) = attributes.map .ok ↔
      (attributes.map fun a => (a.name, a.values)) = groups := by
  induction groups generalizing attributes with
  | nil => cases attributes <;> simp
  | cons g groups ih =>
    cases attributes with
    | nil => simp
    | cons a rest => simp [ih, Prod.ext_iff]

/-- A draft gives the entry whose name and attributes it holds. -/
theorem build_eq_ok_iff {d : EntryDraft} {e : Entry} :
    d.build = .ok e ↔ e.dn = d.dn ∧ (e.attributes.map fun a => (a.name, a.values)) = d.groups := by
  rw [build, bind_eq_ok_iff]
  simp only [mapM_eq_ok_iff, map_make_eq_iff, Entry.make_eq_ok_iff]
  constructor
  · rintro ⟨attributes, hgroups, hdn, rfl⟩
    exact ⟨hdn, hgroups⟩
  · rintro ⟨hdn, hgroups⟩
    exact ⟨e.attributes, hgroups, hdn, rfl⟩

/-- The attributes of an entry, pushed into an empty draft, give the entry. -/
theorem build_gather (e : Entry) : (gather { dn := e.dn } e.attributes).build = .ok e := by
  refine build_eq_ok_iff.2 ⟨by rw [dn_gather], ?_⟩
  rw [groups_gather e.distinct (by simp)]
  rfl

/-! ### Names of a draft -/

/-- A value adds no name but its own. -/
lemma forall_name_addTo {P : String → Prop} {name : String} {groups : List (String × List Bytes)}
    (hname : P name) (h : ∀ g ∈ groups, P g.1) (value : Bytes) :
    ∀ g ∈ addTo name value groups, P g.1 := by
  induction groups with
  | nil => simpa [addTo] using hname
  | cons g groups ih =>
    obtain ⟨spelling, values⟩ := g
    obtain ⟨hg, hgroups⟩ := List.forall_mem_cons.1 h
    unfold addTo
    split
    · exact List.forall_mem_cons.2 ⟨hg, hgroups⟩
    · exact List.forall_mem_cons.2 ⟨hg, ih hgroups⟩

/-- The names of an entry are those of its draft. -/
theorem forall_name_of_build {P : String → Prop} {d : EntryDraft} {e : Entry}
    (h : d.build = .ok e) (hd : ∀ g ∈ d.groups, P g.1) : ∀ a ∈ e.attributes, P a.name := by
  obtain ⟨-, hgroups⟩ := build_eq_ok_iff.1 h
  intro a ha
  refine hd (a.name, a.values) ?_
  rw [← hgroups]
  exact List.mem_map.2 ⟨a, ha, rfl⟩

end DirectoryExchange.EntryDraft

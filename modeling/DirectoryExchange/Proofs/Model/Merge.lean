import DirectoryExchange.Proofs.Model.Draft
import Mathlib.Data.List.Induction

/-!
# Merging values

Values with names are merged into attributes: each attribute stands where its name comes up first,
as it is spelled there, and has all values whose names are the same (`merged`).  That is what a
draft holds into which they have been pushed (`groups_pushPairs`), and it always is an entry
(`exists_build_pushPairs`).
-/

namespace DirectoryExchange

/-- Names in order, each only where it comes up first, in whatever spelling. -/
def firstNames : List String → List String
  | [] => []
  | name :: rest => name :: (firstNames rest).filter fun other => !sameName name other

/-- The values of the pairs whose name is a spelling of this one. -/
def valuesOf (name : String) (pairs : List (String × Bytes)) : List Bytes :=
  (pairs.filter fun p => sameName name p.1).map (·.2)

/-- The pairs merged by name. -/
def merged (pairs : List (String × Bytes)) : List (String × List Bytes) :=
  (firstNames (pairs.map (·.1))).map fun name => (name, valuesOf name pairs)

/-! ### First names -/

/-- A name that comes up first comes up. -/
lemma mem_of_mem_firstNames {name : String} {names : List String} (h : name ∈ firstNames names) :
    name ∈ names := by
  induction names with
  | nil => exact h
  | cons first rest ih =>
    rw [firstNames, List.mem_cons, List.mem_filter] at h
    rcases h with rfl | ⟨h, -⟩
    · exact List.mem_cons_self
    · exact List.mem_cons_of_mem _ (ih h)

/-- No name comes up first twice. -/
lemma pairwise_firstNames (names : List String) :
    (firstNames names).Pairwise fun a b => ¬ sameName a b := by
  induction names with
  | nil => exact .nil
  | cons first rest ih =>
    refine List.pairwise_cons.2 ⟨?_, ih.filter _⟩
    intro other hother
    have hkept := (List.mem_filter.1 hother).2
    rwa [Bool.not_eq_true', ← Bool.not_eq_true] at hkept

/-- Every name has a spelling that comes up first. -/
lemma exists_firstNames {name : String} {names : List String} (h : name ∈ names) :
    ∃ first ∈ firstNames names, sameName first name := by
  induction names with
  | nil => exact absurd h List.not_mem_nil
  | cons first rest ih =>
    by_cases hsame : sameName first name
    · exact ⟨first, List.mem_cons_self, hsame⟩
    · have hrest : name ∈ rest := by
        refine (List.mem_cons.1 h).resolve_left ?_
        rintro rfl
        exact hsame (sameName_refl name)
      obtain ⟨spelling, hspelling, hname⟩ := ih hrest
      refine ⟨spelling, List.mem_cons_of_mem _ (List.mem_filter.2 ⟨hspelling, ?_⟩), hname⟩
      rw [Bool.not_eq_true', ← Bool.not_eq_true]
      exact fun hspelling => hsame (sameName_trans hspelling hname)

/-- One more name comes up for the first time, or it has come up before. -/
lemma firstNames_concat (names : List String) (name : String) :
    firstNames (names ++ [name]) =
      if names.any fun other => sameName other name then firstNames names
      else firstNames names ++ [name] := by
  induction names with
  | nil => rfl
  | cons first rest ih =>
    rw [List.cons_append, firstNames, ih, List.any_cons, firstNames]
    by_cases hrest : rest.any fun other => sameName other name
    · rw [if_pos hrest, hrest, Bool.or_true, if_pos rfl]
    · rw [if_neg hrest, eq_false_of_ne_true hrest, Bool.or_false, List.filter_append]
      by_cases hfirst : sameName first name
      · rw [if_pos hfirst, List.filter_cons_of_neg (by simp [hfirst]), List.filter_nil,
          List.append_nil]
      · have hkept : (!sameName first name) = true := by rwa [Bool.not_eq_true', ← Bool.not_eq_true]
        rw [if_neg hfirst, List.filter_cons_of_pos (by exact hkept), List.filter_nil,
          List.cons_append]

/-! ### Pushing pairs -/

/-- A further pair adds its value to those of its name. -/
lemma valuesOf_concat (name : String) (pairs : List (String × Bytes)) (p : String × Bytes) :
    valuesOf name (pairs ++ [p]) =
      if sameName name p.1 then valuesOf name pairs ++ [p.2] else valuesOf name pairs := by
  rw [valuesOf, List.filter_append, List.map_append]
  by_cases h : sameName name p.1
  · rw [if_pos h, List.filter_cons_of_pos (by exact h)]
    rfl
  · rw [if_neg h, List.filter_cons_of_neg (by exact h)]
    exact List.append_nil _

lemma valuesOf_eq_nil {name : String} {pairs : List (String × Bytes)}
    (h : ∀ p ∈ pairs, ¬ sameName name p.1) : valuesOf name pairs = [] := by
  rw [valuesOf, List.filter_eq_nil_iff.2 h, List.map_nil]

namespace EntryDraft

/-- A value joins the group of its name, if there is one, and leaves the others as they are. -/
lemma addTo_map {names : List String} (hdistinct : names.Pairwise fun a b => ¬ sameName a b)
    {first name : String} (hfirst : first ∈ names) (hname : sameName first name)
    (values : String → List Bytes) (value : Bytes) :
    addTo name value (names.map fun n => (n, values n)) =
      names.map fun n => (n, if sameName n name then values n ++ [value] else values n) := by
  induction names with
  | nil => exact absurd hfirst List.not_mem_nil
  | cons n names ih =>
    obtain ⟨hn, hnames⟩ := List.pairwise_cons.1 hdistinct
    rw [List.map_cons, addTo, List.map_cons]
    by_cases hsame : sameName n name
    · have hothers : ∀ other ∈ names, ¬ sameName other name := by
        intro other hother hcontra
        rw [sameName_comm] at hcontra
        exact hn other hother (sameName_trans hsame hcontra)
      rw [if_pos hsame, if_pos hsame]
      congr 1
      refine List.map_congr_left ?_
      intro other hother
      rw [if_neg (hothers other hother)]
    · have hmem : first ∈ names := by
        refine (List.mem_cons.1 hfirst).resolve_left ?_
        rintro rfl
        exact hsame hname
      rw [if_neg hsame, if_neg hsame, ih hnames hmem]

/-- One more pair adds its value to what is merged. -/
lemma addTo_merged (pairs : List (String × Bytes)) (p : String × Bytes) :
    addTo p.1 p.2 (merged pairs) = merged (pairs ++ [p]) := by
  have hvalues : ∀ names : List String,
      (names.map fun name => (name, valuesOf name (pairs ++ [p]))) =
        names.map fun name => (name, if sameName name p.1 then valuesOf name pairs ++ [p.2]
          else valuesOf name pairs) :=
    fun names => List.map_congr_left fun name _ => by rw [valuesOf_concat]
  rw [merged, merged, List.map_append, List.map_singleton, firstNames_concat, hvalues]
  -- a known name keeps its place and gains the value, a new one comes last
  by_cases hknown : (pairs.map (·.1)).any fun other => sameName other p.1
  · obtain ⟨other, hother, hsame⟩ := List.any_eq_true.1 hknown
    obtain ⟨first, hfirst, hspelling⟩ := exists_firstNames hother
    rw [if_pos hknown,
      addTo_map (pairwise_firstNames _) hfirst (sameName_trans hspelling hsame)]
  · have hnew : ∀ name ∈ pairs.map (·.1), ¬ sameName name p.1 := fun name hname hsame =>
      hknown (List.any_eq_true.2 ⟨name, hname, hsame⟩)
    have hgroups : ∀ g ∈ (firstNames (pairs.map (·.1))).map fun name => (name, valuesOf name pairs),
        ¬ sameName g.1 p.1 := by
      intro g hg
      obtain ⟨name, hname, rfl⟩ := List.mem_map.1 hg
      exact hnew name (mem_of_mem_firstNames hname)
    have hnone : valuesOf p.1 pairs = [] := by
      refine valuesOf_eq_nil fun q hq => ?_
      rw [sameName_comm]
      exact hnew q.1 (List.mem_map_of_mem hq)
    rw [if_neg hknown, addTo_of_new hgroups, List.map_append, List.map_singleton,
      if_pos (sameName_refl p.1), hnone, List.nil_append]
    congr 1
    refine List.map_congr_left ?_
    intro name hname
    rw [if_neg (hnew name (mem_of_mem_firstNames hname))]

/-- The draft into which the pairs have been pushed. -/
def pushPairs (d : EntryDraft) (pairs : List (String × Bytes)) : EntryDraft :=
  pairs.foldl (fun d p => d.push p.1 p.2) d

@[simp] lemma pushPairs_nil (d : EntryDraft) : d.pushPairs [] = d := rfl

lemma pushPairs_append (d : EntryDraft) (pairs more : List (String × Bytes)) :
    d.pushPairs (pairs ++ more) = (d.pushPairs pairs).pushPairs more :=
  List.foldl_append

/-- Values of one name are pushed as pairs. -/
lemma pushPairs_map (d : EntryDraft) (name : String) (values : List Bytes) :
    d.pushPairs (values.map fun value => (name, value)) = d.pushAll name values := by
  rw [pushPairs, pushAll, List.foldl_map]

/-- A draft holds what has been pushed into it, merged. -/
theorem pushPairs_eq (dn : String) (pairs : List (String × Bytes)) :
    pushPairs { dn } pairs = { dn, groups := merged pairs } := by
  induction pairs using List.reverseRecOn with
  | nil => rfl
  | append_singleton pairs p ih =>
    rw [pushPairs_append, ih, ← addTo_merged]
    rfl

end EntryDraft

/-! ### Entries of pairs -/

/-- A name of some pair has a value. -/
lemma valuesOf_ne_nil {name : String} {pairs : List (String × Bytes)}
    (h : name ∈ pairs.map (·.1)) : valuesOf name pairs ≠ [] := by
  obtain ⟨p, hp, rfl⟩ := List.mem_map.1 h
  have hmem : p.2 ∈ valuesOf p.1 pairs :=
    List.mem_map_of_mem (List.mem_filter.2 ⟨hp, sameName_refl p.1⟩)
  exact List.ne_nil_of_mem hmem

/-- Groups of values under different names are the attributes of an entry. -/
lemma exists_attributes {groups : List (String × List Bytes)} (hnames : ∀ g ∈ groups, g.1 ≠ "")
    (hvalues : ∀ g ∈ groups, g.2 ≠ []) :
    ∃ attributes : List Attribute, (attributes.map fun a => (a.name, a.values)) = groups := by
  induction groups with
  | nil => exact ⟨[], rfl⟩
  | cons g groups ih =>
    obtain ⟨hname, hnames⟩ := List.forall_mem_cons.1 hnames
    obtain ⟨hvalue, hvalues⟩ := List.forall_mem_cons.1 hvalues
    obtain ⟨attributes, rfl⟩ := ih hnames hvalues
    exact ⟨⟨g.1, g.2, hname, hvalue⟩ :: attributes, rfl⟩

/-- A draft with a name, and with values under different names, gives an entry. -/
lemma EntryDraft.exists_build {d : EntryDraft} (hdn : d.dn ≠ "")
    (hvalues : ∀ g ∈ d.groups, g.2 ≠ []) (hnames : ∀ g ∈ d.groups, g.1 ≠ "")
    (hdistinct : (d.groups.map (·.1)).Pairwise fun a b => ¬ sameName a b) :
    ∃ entry, d.build = .ok entry := by
  obtain ⟨attributes, hattributes⟩ := exists_attributes hnames hvalues
  rw [← hattributes, List.map_map, List.pairwise_map] at hdistinct
  exact ⟨⟨d.dn, attributes, hdn, hdistinct⟩, build_eq_ok_iff.2 ⟨rfl, hattributes⟩⟩

/-- The merged names are those that come up first. -/
lemma map_fst_merged (pairs : List (String × Bytes)) :
    (merged pairs).map (·.1) = firstNames (pairs.map (·.1)) := by
  rw [merged, List.map_map]
  exact List.map_id _

/-- The groups of what is merged have values. -/
lemma values_ne_of_mem_merged {pairs : List (String × Bytes)} {g : String × List Bytes}
    (hg : g ∈ merged pairs) : g.2 ≠ [] := by
  obtain ⟨name, hname, rfl⟩ := List.mem_map.1 hg
  exact valuesOf_ne_nil (mem_of_mem_firstNames hname)

/-- Merged values stand under different names. -/
lemma pairwise_names_merged (pairs : List (String × Bytes)) :
    ((merged pairs).map (·.1)).Pairwise fun a b => ¬ sameName a b := by
  rw [map_fst_merged]
  exact pairwise_firstNames _

/-- Whatever pairs are pushed, a draft with a name gives an entry. -/
theorem exists_build_pushPairs {dn : String} (hdn : dn ≠ "") {pairs : List (String × Bytes)}
    (hnames : ∀ p ∈ pairs, p.1 ≠ "") :
    ∃ entry, (EntryDraft.pushPairs { dn } pairs).build = .ok entry := by
  rw [EntryDraft.pushPairs_eq]
  refine EntryDraft.exists_build hdn (fun g hg => values_ne_of_mem_merged hg) ?_
    (pairwise_names_merged pairs)
  intro g hg
  obtain ⟨name, hname, rfl⟩ := List.mem_map.1 hg
  obtain ⟨p, hp, rfl⟩ := List.mem_map.1 (mem_of_mem_firstNames hname)
  exact hnames p hp

end DirectoryExchange

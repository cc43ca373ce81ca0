import DirectoryExchange.Proofs.Directory.Walk
import DirectoryExchange.Proofs.Directory.Entries
import DirectoryExchange.Proofs.Model.ObjectClass
import Mathlib.Data.Set.List

/-!
# What searches find

A search of a directory that changes have made refuses a filter, a base that is no name and a base
without a node, in this order, and otherwise answers with the entries of its scope that satisfy the
filter, each once and in the order of their paths (`search_outcome`).  Filters are looked at in the
attributes of a stored entry, but what they say is said of entries (`Filter.holds_iff`).
-/

namespace DirectoryExchange

namespace Filter

/-- Whether an entry satisfies a filter.  Every entry has an object class. -/
def SatisfiedBy (e : Entry) : Filter → Prop
  | and filters => ∀ filter, ∀ _ : filter ∈ filters, filter.SatisfiedBy e
  | or filters => ∃ filter, ∃ _ : filter ∈ filters, filter.SatisfiedBy e
  | not filter => ¬ filter.SatisfiedBy e
  | present name => isObjectClass name = true ∨ ∃ a ∈ e.attributes, sameName a.name name
  | equal name value =>
    ∃ a ∈ e.attributes, sameName a.name name ∧ ∃ v ∈ a.values, v.lower = value.lower

/-- All filters of a list hold if each of them does. -/
lemma allHold_iff {bag : AttributeBag} {filters : List Filter} :
    allHold bag filters = true ↔ ∀ filter ∈ filters, filter.holds bag = true := by
  induction filters with
  | nil => simp [allHold]
  | cons filter filters ih => simp [allHold, ih]

/-- Some filter of a list holds if there is one that does. -/
lemma anyHolds_iff {bag : AttributeBag} {filters : List Filter} :
    anyHolds bag filters = true ↔ ∃ filter ∈ filters, filter.holds bag = true := by
  induction filters with
  | nil => simp [anyHolds]
  | cons filter filters ih => simp [anyHolds, ih]

/-- The values of a name are those of the one attribute that has it. -/
lemma get?_ofAttributes_eq_some_iff {e : Entry} {name : String} {values : List Bytes} :
    (AttributeBag.ofAttributes e.attributes).get? name = some values ↔
      ∃ a ∈ e.attributes, sameName a.name name ∧ a.values = values := by
  have hget : (AttributeBag.ofAttributes e.attributes).get? name =
      (e.attribute? name).map Attribute.values := by
    rw [AttributeBag.get?, AttributeBag.ofAttributes, List.find?_map, Option.map_map]
    rfl
  rw [hget, Option.map_eq_some_iff]
  constructor
  · rintro ⟨a, ha, hvalues⟩
    have hname := List.find?_some (p := fun a : Attribute => sameName a.name name) ha
    exact ⟨a, List.mem_of_find?_eq_some ha, hname, hvalues⟩
  · rintro ⟨a, ha, hname, hvalues⟩
    exact ⟨a, Entry.attribute?_eq_some ha hname, hvalues⟩

/-- A filter is evaluated as it is meant. -/
theorem holds_iff {e : Entry} (filter : Filter) :
    filter.holds (.ofAttributes e.attributes) = true ↔ filter.SatisfiedBy e := by
  induction filter using SatisfiedBy.induct with
  | case1 filters ih =>
    rw [holds, allHold_iff, SatisfiedBy]
    exact forall_congr' fun filter => forall_congr' fun hmem => ih filter hmem
  | case2 filters ih =>
    rw [holds, anyHolds_iff, SatisfiedBy]
    exact exists_congr fun filter =>
      ⟨fun ⟨hmem, h⟩ => ⟨hmem, (ih filter hmem).1 h⟩, fun ⟨hmem, h⟩ => ⟨hmem, (ih filter hmem).2 h⟩⟩
  | case3 filter ih => rw [holds, SatisfiedBy, ← ih, Bool.not_eq_true', Bool.eq_false_iff]
  | case4 name =>
    rw [holds, SatisfiedBy, Bool.or_eq_true, Option.isSome_iff_exists]
    simp only [get?_ofAttributes_eq_some_iff]
    refine or_congr_right ⟨?_, ?_⟩
    · rintro ⟨_, a, ha, hname, -⟩
      exact ⟨a, ha, hname⟩
    · rintro ⟨a, ha, hname⟩
      exact ⟨_, a, ha, hname, rfl⟩
  | case5 name value =>
    rw [holds, SatisfiedBy, Option.any_eq_true]
    simp only [get?_ofAttributes_eq_some_iff, hasValue, List.any_eq_true,
      Bytes.sameIgnoringCase_iff]
    constructor
    · rintro ⟨_, ⟨a, ha, hname, rfl⟩, hvalue⟩
      exact ⟨a, ha, hname, hvalue⟩
    · rintro ⟨a, ha, hname, hvalue⟩
      exact ⟨_, ⟨a, ha, hname, rfl⟩, hvalue⟩

end Filter

namespace Directory

/-! ### Answers -/

/-- What a search finds from a node, at their places. -/
structure Finds (d : Directory) (filter : Filter) (scope : Scope) (base : Dn.Path)
    (placed : List (Dn.Path × Entry)) : Prop where
  /-- All entries in the scope that satisfy the filter, and no others. -/
  mem_iff : ∀ path e, (path, e) ∈ placed ↔
    d.entryAt? path = some (asStored e) ∧ InScope base scope path ∧ filter.SatisfiedBy e
  /-- Each of them once, in ascending order of their paths. -/
  ascending : placed.Pairwise fun x y => compare x.1 y.1 = .lt
  /-- None of them behind an entry that is below it. -/
  above_first : placed.Pairwise fun x y => isBelow x.1 y.1 = false
  /-- They are those on the way through the tree. -/
  walked : (placed.map fun x => (x.1, asStored x.2)) = d.collect filter scope base

/-- What a search answers. -/
inductive SearchOutcome (d : Directory) (request : SearchRequest) : SearchResult → Prop
  /-- The filter is none. -/
  | malformed (hfilter : Filter.parse request.filter = .error .malformed) :
      SearchOutcome d request
        ⟨.protocolError, s!"malformed filter {Quoted.quote request.filter}", []⟩
  /-- The filter is one that the directory does not know. -/
  | unsupported (hfilter : Filter.parse request.filter = .error .unsupported) :
      SearchOutcome d request
        ⟨.unwillingToPerform, s!"unsupported filter {Quoted.quote request.filter}", []⟩
  /-- The base is no name. -/
  | misnamed {filter : Filter} (hfilter : Filter.parse request.filter = .ok filter)
      (hbase : Dn.parse? request.base = none) :
      SearchOutcome d request ⟨.invalidDnSyntax, (invalidDn request.base).message, []⟩
  /-- There is no node at the base. -/
  | absent {filter : Filter} {base : Dn.Path} (hfilter : Filter.parse request.filter = .ok filter)
      (hbase : Dn.path? request.base = some base) (hnode : ¬ d.Reached base) :
      SearchOutcome d request ⟨.noSuchObject, (noSuchObject request.base).message, []⟩
  /-- The search goes on from the node at the base. -/
  | found {filter : Filter} {base : Dn.Path} {placed : List (Dn.Path × Entry)}
      (hfilter : Filter.parse request.filter = .ok filter)
      (hbase : Dn.path? request.base = some base) (hnode : d.Reached base)
      (hplaced : d.Finds filter request.scope base placed) :
      SearchOutcome d request ⟨.success, "", placed.map (·.2)⟩

section

variable {d : Directory} {filter : Filter} {scope : Scope} {base : Dn.Path}

lemma asStored_injective : Function.Injective asStored := fun e e' h =>
  Except.ok.inj (by rw [← toEntry_asStored, h, toEntry_asStored])

/-- What is collected makes entries. -/
lemma exists_finds (hsound : d.Sound) :
    ∃ placed, d.Finds filter scope base placed := by
  have hrange : d.collect filter scope base ∈
      Set.range (List.map fun x : Dn.Path × Entry => (x.1, asStored x.2)) := by
    rw [Set.range_list_map]
    rintro ⟨path, held⟩ hmem
    obtain ⟨e, rfl⟩ := hsound.exists_asStored (mem_collect_iff.1 hmem).1
    exact ⟨(path, e), rfl⟩
  obtain ⟨placed, hplaced⟩ := hrange
  have hascending : placed.Pairwise fun x y => compare x.1 y.1 = .lt := by
    have hcollect : (d.collect filter scope base).Pairwise fun x y => compare x.1 y.1 = .lt :=
      pairwise_collect
    rwa [← hplaced, List.pairwise_map] at hcollect
  refine ⟨placed, ?_, hascending, ?_, hplaced⟩
  · intro path e
    have hthere : (path, e) ∈ placed ↔ (path, asStored e) ∈ d.collect filter scope base := by
      rw [← hplaced]
      constructor
      · exact fun hmem => List.mem_map.2 ⟨_, hmem, rfl⟩
      · intro hmem
        obtain ⟨x, hx, heq⟩ := List.mem_map.1 hmem
        obtain ⟨hpath, he⟩ := Prod.mk.inj heq
        rwa [← hpath, ← asStored_injective he]
    rw [hthere, mem_collect_iff, ← Filter.holds_iff]
    rfl
  · refine hascending.imp fun {x y} hlt => Bool.eq_false_iff.2 fun hbelow => ?_
    exact Std.OrientedCmp.not_lt_of_lt hlt (compare_of_isBelow hbelow)

/-- The entries that are found can be made of what is selected. -/
lemma Finds.mapM_select {placed : List (Dn.Path × Entry)} (h : d.Finds filter scope base placed) :
    (d.select base scope filter).mapM StoredEntry.toEntry = .ok (placed.map (·.2)) := by
  rw [← map_collect, ← h.walked, mapM_eq_ok_iff]
  simp [toEntry_asStored]

end

/-! ### Steps of a search -/

section

variable {d : Directory} {request : SearchRequest} {filter : Filter} {base : Dn.Path}
  {e : DirectoryError}

/-- A filter that is refused is the answer to the search. -/
lemma search_of_filterOf (hfilter : filterOf request.filter = .error e) :
    d.search request = ⟨e.code, e.message, []⟩ := by
  rw [search, find, hfilter]
  rfl

variable (hfilter : filterOf request.filter = .ok filter)
include hfilter

/-- A base that is refused is the answer to a search whose filter is not. -/
lemma search_of_pathOf (hbase : pathOf request.base = .error e) :
    d.search request = ⟨e.code, e.message, []⟩ := by
  rw [search, find, hfilter, ok_bind, hbase]
  rfl

variable (hbase : pathOf request.base = .ok base)
include hbase

/-- A base without a node is the answer to a search that is not refused. -/
lemma search_of_absent (hnode : d.hasNodeAt base = false) :
    d.search request = ⟨.noSuchObject, (noSuchObject request.base).message, []⟩ := by
  rw [search, find, hfilter, ok_bind, hbase, ok_bind, hnode]
  rfl

/-- A search of a base with a node succeeds with the entries found. -/
lemma search_of_finds (hnode : d.hasNodeAt base = true)
    {placed : List (Dn.Path × Entry)} (hplaced : d.Finds filter request.scope base placed) :
    d.search request = ⟨.success, "", placed.map (·.2)⟩ := by
  rw [search, find, hfilter, ok_bind, hbase, ok_bind, if_pos hnode, hplaced.mapM_select]
  rfl

end

/-- A search of a directory that changes have made answers with what is in its scope, or refuses the
request, and leaves the directory as it was.  White space names the root. -/
theorem search_outcome (records : List ChangeRecord) (request : SearchRequest) :
    let d := empty.after records
    (Blank.isBlankText request.base = true → Dn.path? request.base = some []) ∧
      ∃ result, connection.search d request = (.ok result, d) ∧ d.SearchOutcome request result := by
  intro d
  have hsound : d.Sound := sound_after records
  refine ⟨fun hblank => by rw [Dn.path?, Dn.parse?, if_pos hblank]; rfl, _, rfl, ?_⟩
  cases hfilter : Filter.parse request.filter with
  | error reason =>
    cases reason with
    | malformed =>
      have hfilterOf : filterOf request.filter =
          .error ⟨.protocolError, s!"malformed filter {Quoted.quote request.filter}"⟩ := by
        rw [filterOf, hfilter]
      rw [search_of_filterOf hfilterOf]
      exact .malformed hfilter
    | unsupported =>
      have hfilterOf : filterOf request.filter =
          .error ⟨.unwillingToPerform, s!"unsupported filter {Quoted.quote request.filter}"⟩ := by
        rw [filterOf, hfilter]
      rw [search_of_filterOf hfilterOf]
      exact .unsupported hfilter
  | ok filter =>
    have hfilterOf : filterOf request.filter = .ok filter := by rw [filterOf, hfilter]
    cases hbase : Dn.path? request.base with
    | none =>
      have hpath : pathOf request.base = .error (invalidDn request.base) := by rw [pathOf, hbase]
      rw [search_of_pathOf hfilterOf hpath]
      exact .misnamed hfilter (Option.map_eq_none_iff.1 hbase)
    | some base =>
      have hpath : pathOf request.base = .ok base := pathOf_eq_ok_iff.2 hbase
      cases hnode : d.hasNodeAt base with
      | false =>
        rw [search_of_absent hfilterOf hpath hnode]
        exact .absent hfilter hbase (by rw [reached_iff, hnode]; exact Bool.false_ne_true)
      | true =>
        obtain ⟨placed, hplaced⟩ : ∃ placed, d.Finds filter request.scope base placed :=
          exists_finds hsound
        rw [search_of_finds hfilterOf hpath hnode hplaced]
        exact .found hfilter hbase (reached_iff.2 hnode) hplaced

end Directory

end DirectoryExchange

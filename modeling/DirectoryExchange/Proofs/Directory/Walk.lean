import DirectoryExchange.Proofs.Directory.Tree
import Mathlib.Data.List.MinMax

/-!
# Walks through a directory

A search goes through the tree of a directory, from a node to its children in order, and keeps the
entries that satisfy the filter (`collect`).  It meets every place in its scope (`mem_collect_iff`),
one after the other in the order of paths (`pairwise_collect`), and so it gives what the map of the
directory holds of them (`map_collect`).
-/

namespace DirectoryExchange.Directory

/-! ### Scopes -/

/-- The places in the scope of a search. -/
inductive InScope (base : Dn.Path) : Scope → Dn.Path → Prop
  | base : InScope base .base base
  | oneLevel (key : Dn.RdnKey) : InScope base .oneLevel (base ++ [key])
  | subtree (rest : Dn.Path) : InScope base .subtree (base ++ rest)

section Scopes

variable {path p : Dn.Path} {scope : Scope}

lemma inScope_base_iff : InScope path .base p ↔ p = path :=
  ⟨fun h => by cases h; rfl, fun h => h ▸ .base⟩

lemma inScope_oneLevel_iff : InScope path .oneLevel p ↔ ∃ key, p = path ++ [key] :=
  ⟨fun h => by cases h with | oneLevel key => exact ⟨key, rfl⟩, fun ⟨key, hp⟩ => hp ▸ .oneLevel key⟩

lemma inScope_subtree_iff : InScope path .subtree p ↔ path <+: p :=
  ⟨fun h => by cases h with | subtree rest => exact List.prefix_append _ _,
    fun ⟨rest, hp⟩ => hp ▸ .subtree rest⟩

/-- The test of a scope decides it. -/
lemma inScope_iff : inScope path scope p = true ↔ InScope path scope p := by
  cases scope with
  | base => rw [inScope, beq_iff_eq, inScope_base_iff]
  | oneLevel =>
    rw [inScope, Bool.and_eq_true, List.isPrefixOf_iff_prefix, beq_iff_eq, inScope_oneLevel_iff]
    constructor
    · rintro ⟨⟨rest, rfl⟩, hlength⟩
      rw [List.length_append, Nat.add_left_cancel_iff, List.length_eq_one_iff] at hlength
      obtain ⟨key, rfl⟩ := hlength
      exact ⟨key, rfl⟩
    · rintro ⟨key, rfl⟩
      exact ⟨List.prefix_append _ _, by simp⟩
  | subtree => rw [inScope, List.isPrefixOf_iff_prefix, inScope_subtree_iff]

end Scopes

/-! ### Children -/

/-- The places of the nodes directly below a node, in order. -/
def children (d : Directory) (path : Dn.Path) : List Dn.Path :=
  (d.nodes.toList.map (·.1)).filter (inScope path .oneLevel)

/-- The places to which the children lead, one below the other, from the root. -/
inductive Reached (d : Directory) : Dn.Path → Prop
  | root : Reached d []
  | child {path child : Dn.Path} (hpath : Reached d path) (hchild : child ∈ d.children path) :
      Reached d child

/-- The length of the longest path. -/
def depth (d : Directory) : Nat := (d.nodes.toList.map (·.1.length)).foldr max 0

section Children

variable {d : Directory} {path child : Dn.Path}

/-- The children of a node are the nodes one step below it. -/
lemma mem_children_iff : child ∈ d.children path ↔
    (∃ key, child = path ++ [key]) ∧ d.hasNodeAt child = true := by
  have hnode : d.hasNodeAt child = true ↔ child = [] ∨ child ∈ d.nodes.toList.map (·.1) := by
    simp [hasNodeAt_iff]
  rw [children, List.mem_filter, hnode, inScope_iff, inScope_oneLevel_iff]
  constructor
  · rintro ⟨hmem, hbelow⟩
    exact ⟨hbelow, .inr hmem⟩
  · rintro ⟨⟨key, rfl⟩, hnil | hmem⟩
    · exact absurd hnil (by simp)
    · exact ⟨hmem, key, rfl⟩

/-- Children stand in the order of their paths. -/
lemma pairwise_children (path : Dn.Path) :
    (d.children path).Pairwise fun p q => compare p q = .lt :=
  (List.pairwise_map.2 d.nodes.sorted).filter _

lemma length_le_depth (h : child ∈ d.nodes.toList.map (·.1)) : child.length ≤ d.depth := by
  obtain ⟨node, hnode, rfl⟩ := List.mem_map.1 h
  exact List.le_max_of_le' 0 (List.mem_map.2 ⟨node, hnode, rfl⟩) (Nat.le_refl _)

/-- Below a child there is less depth to come, so that a walk ends. -/
lemma depth_sub_lt (h : child ∈ d.children path) :
    d.depth - child.length < d.depth - path.length := by
  have hle := length_le_depth (List.mem_filter.1 h).1
  obtain ⟨⟨key, rfl⟩, -⟩ := mem_children_iff.1 h
  rw [List.length_append, List.length_singleton] at hle ⊢
  omega

/-- What holds of a node if it holds of its children holds of every node. -/
theorem children_induction {motive : Dn.Path → Prop} (d : Directory)
    (step : ∀ path, (∀ child ∈ d.children path, motive child) → motive path) (path : Dn.Path) :
    motive path :=
  step path fun child _ => children_induction d step child
termination_by d.depth - path.length
decreasing_by exact depth_sub_lt ‹_›

/-- The children lead to every node. -/
theorem reached_iff : d.Reached path ↔ d.hasNodeAt path = true := by
  constructor
  · intro hpath
    cases hpath with
    | root => rfl
    | child _ hchild => exact (mem_children_iff.1 hchild).2
  · intro hpath
    induction path using List.reverseRecOn with
    | nil => exact .root
    | append_singleton path key ih =>
      exact .child (ih (hasNodeAt_of_isPrefix hpath (List.prefix_append _ _)))
        (mem_children_iff.2 ⟨⟨key, rfl⟩, hpath⟩)

/-- What goes on behind two places of one length is in the order of the places. -/
lemma compare_append_of_lt {p q : Dn.Path} (hlength : p.length = q.length)
    (h : compare p q = .lt) (r s : Dn.Path) : compare (p ++ r) (q ++ s) = .lt := by
  induction p generalizing q with
  | nil =>
    rw [List.length_nil, eq_comm, List.length_eq_zero_iff] at hlength
    rw [hlength] at h
    exact absurd h (by decide)
  | cons key p ih =>
    obtain ⟨key', q, rfl⟩ : ∃ key' q', q = key' :: q' :=
      List.exists_cons_of_length_pos (by rw [← hlength]; exact Nat.succ_pos _)
    have hcons : ∀ p q : Dn.Path,
        compare (key :: p) (key' :: q) = (compare key key').then (compare p q) :=
      fun _ _ => List.compareLex_cons_cons
    rw [hcons, Ordering.then_eq_lt] at h
    rw [List.cons_append, List.cons_append, hcons, Ordering.then_eq_lt]
    exact h.imp_right fun ⟨heq, hlt⟩ => ⟨heq, ih (Nat.succ_inj.1 hlength) hlt⟩

end Children

/-! ### Collecting -/

/-- The entry at the place, if it satisfies the filter. -/
def matching (d : Directory) (filter : Filter) (path : Dn.Path) : List (Dn.Path × StoredEntry) :=
  ((d.entryAt? path).toList.filter fun held => filter.holds held.attributes).map (path, ·)

/-- The entries that a search finds at their places: that of the node, unless the search looks one
level below, and those found from its children. -/
def collect (d : Directory) (filter : Filter) (scope : Scope) (path : Dn.Path) :
    List (Dn.Path × StoredEntry) :=
  (if scope = .oneLevel then [] else d.matching filter path) ++
    match scope with
    | .base => []
    | .oneLevel => (d.children path).attach.flatMap fun ⟨child, _⟩ => d.collect filter .base child
    | .subtree => (d.children path).attach.flatMap fun ⟨child, _⟩ => d.collect filter .subtree child
termination_by d.depth - path.length
decreasing_by all_goals exact depth_sub_lt ‹_›

section Collect

variable {d : Directory} {filter : Filter} {scope : Scope} {path p : Dn.Path} {held : StoredEntry}

/-- A place gives its own entry if that satisfies the filter. -/
lemma mem_matching_iff : (p, held) ∈ d.matching filter path ↔
    p = path ∧ d.entryAt? p = some held ∧ filter.holds held.attributes = true := by
  rw [matching, List.mem_map]
  constructor
  · rintro ⟨held', hmem, heq⟩
    obtain ⟨rfl, rfl⟩ := Prod.mk.inj heq
    obtain ⟨hthere, hholds⟩ := List.mem_filter.1 hmem
    exact ⟨rfl, Option.mem_toList.1 hthere, hholds⟩
  · rintro ⟨rfl, hthere, hholds⟩
    exact ⟨held, List.mem_filter.2 ⟨Option.mem_toList.2 hthere, hholds⟩, rfl⟩

lemma pairwise_matching {R : Dn.Path × StoredEntry → Dn.Path × StoredEntry → Prop} :
    (d.matching filter path).Pairwise R := by
  rw [matching, List.pairwise_map]
  refine List.Pairwise.filter _ ?_
  cases d.entryAt? path with
  | none => exact .nil
  | some held => exact List.pairwise_singleton _ held

lemma collect_base : d.collect filter .base path = d.matching filter path := by
  rw [collect]
  simp

/-- A walk of one level stops at the children. -/
lemma collect_oneLevel :
    d.collect filter .oneLevel path = (d.children path).flatMap (d.matching filter) := by
  rw [collect]
  simp [collect_base]

/-- A walk through a subtree goes through those of the children behind the node. -/
lemma collect_subtree : d.collect filter .subtree path =
    d.matching filter path ++ (d.children path).flatMap (d.collect filter .subtree) := by
  rw [collect]
  simp

/-- No place in the scope is missed, and there is nothing else. -/
theorem mem_collect_iff : (p, held) ∈ d.collect filter scope path ↔
    d.entryAt? p = some held ∧ InScope path scope p ∧ filter.holds held.attributes = true := by
  have hnode : d.entryAt? p = some held → d.hasNodeAt p = true := hasNodeAt_of_entryAt?
  cases scope with
  | base =>
    rw [collect_base, mem_matching_iff, inScope_base_iff, and_left_comm]
  | oneLevel =>
    rw [collect_oneLevel, List.mem_flatMap, inScope_oneLevel_iff]
    simp only [mem_matching_iff]
    constructor
    · rintro ⟨_, hchild, rfl, hthere, hholds⟩
      exact ⟨hthere, (mem_children_iff.1 hchild).1, hholds⟩
    · rintro ⟨hthere, hbelow, hholds⟩
      exact ⟨p, mem_children_iff.2 ⟨hbelow, hnode hthere⟩, rfl, hthere, hholds⟩
  | subtree =>
    induction path using children_induction d with
    | step path ih =>
      rw [collect_subtree, List.mem_append, List.mem_flatMap, mem_matching_iff, inScope_subtree_iff]
      constructor
      · rintro (⟨rfl, hthere, hholds⟩ | ⟨child, hchild, hmem⟩)
        · exact ⟨hthere, List.prefix_rfl, hholds⟩
        · obtain ⟨hthere, hbelow, hholds⟩ := (ih child hchild).1 hmem
          obtain ⟨⟨key, rfl⟩, -⟩ := mem_children_iff.1 hchild
          exact ⟨hthere, (List.prefix_append _ _).trans (inScope_subtree_iff.1 hbelow), hholds⟩
      · rintro ⟨hthere, ⟨rest, rfl⟩, hholds⟩
        cases rest with
        | nil => exact .inl ⟨List.append_nil _, hthere, hholds⟩
        | cons key rest =>
          -- the way to the entry leads over a child
          have hway : path ++ [key] <+: path ++ key :: rest := ⟨rest, by simp⟩
          have hchild : path ++ [key] ∈ d.children path :=
            mem_children_iff.2 ⟨⟨key, rfl⟩, hasNodeAt_of_isPrefix (hnode hthere) hway⟩
          exact .inr ⟨_, hchild, (ih _ hchild).2 ⟨hthere, inScope_subtree_iff.2 hway, hholds⟩⟩

/-- What is found from one child comes before what is found from the next. -/
lemma pairwise_flatMap_children {f : Dn.Path → List (Dn.Path × StoredEntry)}
    (hf : ∀ child ∈ d.children path, (f child).Pairwise fun x y => compare x.1 y.1 = .lt)
    (hbelow : ∀ child ∈ d.children path, ∀ x ∈ f child, child <+: x.1) :
    ((d.children path).flatMap f).Pairwise fun x y => compare x.1 y.1 = .lt := by
  refine List.pairwise_flatMap.2 ⟨hf, (pairwise_children path).imp_of_mem ?_⟩
  intro child child' hchild hchild' hlt x hx y hy
  obtain ⟨rest, hx⟩ := hbelow child hchild x hx
  obtain ⟨rest', hy⟩ := hbelow child' hchild' y hy
  obtain ⟨⟨key, rfl⟩, -⟩ := mem_children_iff.1 hchild
  obtain ⟨⟨key', rfl⟩, -⟩ := mem_children_iff.1 hchild'
  rw [← hx, ← hy]
  exact compare_append_of_lt (by simp) hlt rest rest'

/-- What is found comes in the order of the paths. -/
theorem pairwise_collect :
    (d.collect filter scope path).Pairwise fun x y => compare x.1 y.1 = .lt := by
  cases scope with
  | base =>
    rw [collect_base]
    exact pairwise_matching
  | oneLevel =>
    rw [collect_oneLevel]
    refine pairwise_flatMap_children (fun _ _ => pairwise_matching) fun child _ x hx => ?_
    rw [(mem_matching_iff.1 hx).1]
  | subtree =>
    have hscope : ∀ path, ∀ x ∈ d.collect filter .subtree path, path <+: x.1 := fun path x hx =>
      inScope_subtree_iff.1 (mem_collect_iff.1 hx).2.1
    induction path using children_induction d with
    | step path ih =>
      rw [collect_subtree, List.pairwise_append]
      refine ⟨pairwise_matching, pairwise_flatMap_children ih fun child _ => hscope child, ?_⟩
      intro x hx y hy
      obtain ⟨child, hchild, hy⟩ := List.mem_flatMap.1 hy
      obtain ⟨⟨key, rfl⟩, -⟩ := mem_children_iff.1 hchild
      obtain ⟨rest, hrest⟩ := hscope _ y hy
      rw [(mem_matching_iff.1 hx).1, ← hrest]
      refine compare_of_isBelow (isBelow_iff.2 ⟨⟨key :: rest, by simp⟩, by simp⟩)

/-- What a search selects are the occupied places of its scope that satisfy the filter. -/
lemma select_eq : d.select path scope filter =
    (d.occupied.filter fun (p, held) =>
      inScope path scope p && filter.holds held.attributes).toList.map (·.2) := by
  simp only [select, occupied, SortedMap.toList_filter]
  induction d.nodes.toList with
  | nil => rfl
  | cons x nodes ih =>
    obtain ⟨p, _ | held⟩ := x
    · cases hscope : inScope path scope p <;> simp [hscope, ih]
    · cases hscope : inScope path scope p <;>
        cases hholds : filter.holds held.attributes <;> simp [hscope, hholds, ih]

/-- A walk finds what the map holds of the places in its scope. -/
theorem map_collect :
    (d.collect filter scope path).map (·.2) = d.select path scope filter := by
  have heq : (⟨d.collect filter scope path, pairwise_collect⟩ : SortedMap Dn.Path StoredEntry) =
      d.occupied.filter fun (p, held) => inScope path scope p && filter.holds held.attributes := by
    refine SortedMap.eq_of_mem_iff ?_
    rintro ⟨p, held⟩
    rw [mem_collect_iff, SortedMap.toList_filter, List.mem_filter, Bool.and_eq_true,
      inScope_iff, entryAt?_eq_some_iff]
  rw [select_eq, ← heq]

end Collect

end DirectoryExchange.Directory

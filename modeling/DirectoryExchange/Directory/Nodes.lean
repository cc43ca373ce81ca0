import DirectoryExchange.Directory.AttributeBag
import DirectoryExchange.Dn.Key
import DirectoryExchange.SortedMap

/-!
# Trees of nodes

What a directory holds is a map from paths to nodes.  At a node there is an entry, or nothing but
the way to entries below, which is called glue.  The map stands for a tree if whatever is above a
node is a node (`IsTree`).  Nodes are put in with the way to them, taken out with all that is below
them, and cut off or grafted as a subtree, and each of these operations makes trees of trees.
-/

namespace DirectoryExchange

/-- An entry as a directory holds it. -/
structure StoredEntry where
  /-- The distinguished name as it was spelled. -/
  dn : String
  /-- The attributes. -/
  attributes : AttributeBag
  deriving DecidableEq, Repr

/-! ### Paths -/

namespace Dn

/-- The non-empty beginnings of a path, shortest first. -/
def beginnings : Path → List Path
  | [] => []
  | key :: rest => [key] :: (beginnings rest).map (key :: ·)

/-- The beginnings of a path are the paths it runs through, the root apart and itself included. -/
theorem mem_beginnings {path p : Path} : p ∈ beginnings path ↔ p ≠ [] ∧ p <+: path := by
  induction path generalizing p with
  | nil =>
    rw [beginnings, List.prefix_nil]
    constructor
    · exact fun h => absurd h List.not_mem_nil
    · exact fun h => absurd h.2 h.1
  | cons key rest ih =>
    rw [beginnings, List.mem_cons, List.mem_map]
    constructor
    · rintro (rfl | ⟨q, hq, rfl⟩)
      · exact ⟨List.cons_ne_nil _ _, List.cons_prefix_cons.2 ⟨rfl, List.nil_prefix⟩⟩
      · exact ⟨List.cons_ne_nil _ _, List.cons_prefix_cons.2 ⟨rfl, (ih.1 hq).2⟩⟩
    · rintro ⟨hne, hbegins⟩
      obtain ⟨key', q, rfl⟩ := List.exists_cons_of_ne_nil hne
      obtain ⟨rfl, hq⟩ := List.cons_prefix_cons.1 hbegins
      by_cases hnil : q = []
      · exact .inl (by rw [hnil])
      · exact .inr ⟨q, ih.2 ⟨hnil, hq⟩, rfl⟩

/-- A beginning of a path other than the whole path is one of the path to its parent. -/
theorem prefix_dropLast_of_ne {p path : Path} (h : p <+: path) (hne : p ≠ path) :
    p <+: path.dropLast := by
  obtain ⟨rest, rfl⟩ := h
  have hrest : rest ≠ [] := fun hnil => hne (by rw [hnil, List.append_nil])
  rw [List.dropLast_append_of_ne_nil hrest]
  exact List.prefix_append _ _

/-- What is below a place is in the order of what follows behind the place. -/
theorem compare_append_left (path p q : Path) : compare (path ++ p) (path ++ q) = compare p q := by
  induction path with
  | nil => rfl
  | cons key path ih =>
    have hself : compare key key = .eq := Std.ReflCmp.compare_self
    have hcons : compare (key :: (path ++ p)) (key :: (path ++ q)) =
        (compare key key).then (compare (path ++ p) (path ++ q)) :=
      List.compareLex_cons_cons
    rw [List.cons_append, List.cons_append, hcons, hself, ih]
    rfl

end Dn

/-! ### Nodes -/

/-- What is at each path: an entry, or glue, which is `none`. -/
abbrev Nodes := SortedMap Dn.Path (Option StoredEntry)

namespace Nodes

/-- Whether there is anything at the path.  The root is always there. -/
def hasAt (nodes : Nodes) (path : Dn.Path) : Bool := path == [] || (nodes.get? path).isSome

/-- Whether everything above a node is a node. -/
def IsTree (nodes : Nodes) : Prop :=
  ∀ path ancestor, ancestor <+: path → nodes.hasAt path = true → nodes.hasAt ancestor = true

variable {nodes subtree : Nodes} {path p q : Dn.Path}

/-- The root is always in use; any other path is if the map has it. -/
theorem hasAt_iff : nodes.hasAt p = true ↔ p = [] ∨ (nodes.get? p).isSome = true := by
  rw [hasAt, Bool.or_eq_true, beq_iff_eq]

theorem hasAt_iff_mem : nodes.hasAt p = true ↔ p = [] ∨ ∃ node, (p, node) ∈ nodes.toList := by
  rw [hasAt_iff, SortedMap.get?_isSome_iff]

/-- Where there are no nodes, none hangs in the air. -/
theorem isTree_empty : IsTree SortedMap.empty := by
  intro p q hq hp
  rcases hasAt_iff_mem.1 hp with rfl | ⟨node, hmem⟩
  · rw [List.prefix_nil.1 hq]
    rfl
  · exact absurd hmem List.not_mem_nil

/-! ### Ways -/

/-- The nodes with glue on the way to the path, wherever there was nothing. -/
def pave (nodes : Nodes) (path : Dn.Path) : Nodes :=
  (Dn.beginnings path).foldl
    (fun nodes p => if (nodes.get? p).isSome then nodes else nodes.insert p none) nodes

/-- Paving puts glue where there was nothing. -/
theorem mem_pave_iff {node : Option StoredEntry} :
    (p, node) ∈ (nodes.pave path).toList ↔ (p, node) ∈ nodes.toList ∨
      node = none ∧ p ∈ Dn.beginnings path ∧ ∀ other, (p, other) ∉ nodes.toList := by
  rw [pave]
  generalize Dn.beginnings path = places
  induction places generalizing nodes with
  | nil => simp
  | cons place places ih =>
    rw [List.foldl_cons, ih]
    split
    · next hthere =>
      obtain ⟨there, hthere⟩ := SortedMap.get?_isSome_iff.1 hthere
      refine or_congr_right (and_congr_right fun _ => and_congr_left fun hnone => ?_)
      rw [List.mem_cons, or_iff_right]
      rintro rfl
      exact hnone there hthere
    · next hnone =>
      rw [SortedMap.get?_isSome_iff, not_exists] at hnone
      simp only [SortedMap.mem_insert_iff, Prod.mk.injEq, List.mem_cons]
      by_cases hp : p = place
      · subst hp
        simp [hnone]
      · simp [hp]

/-- Paving puts into use all beginnings of the path, and nothing else. -/
theorem hasAt_pave : (nodes.pave path).hasAt p = true ↔ p <+: path ∨ nodes.hasAt p = true := by
  simp only [hasAt_iff_mem, mem_pave_iff, Dn.mem_beginnings]
  by_cases hp : p = []
  · simp [hp]
  · by_cases hnode : ∃ node, (p, node) ∈ nodes.toList
    · obtain ⟨node, hmem⟩ := hnode
      exact iff_of_true (.inr ⟨node, .inl hmem⟩) (.inr (.inr ⟨node, hmem⟩))
    · rw [not_exists] at hnode
      simp [hp, hnode]

/-- If the beginnings of a path are all that is added to a tree, it stays one. -/
theorem IsTree.of_way {later : Nodes} (h : nodes.IsTree)
    (hlater : ∀ p, later.hasAt p = true ↔ p <+: path ∨ nodes.hasAt p = true) : later.IsTree := by
  intro p q hq hp
  rw [hlater] at hp ⊢
  rcases hp with hway | hold
  · exact .inl (hq.trans hway)
  · exact .inr (h p q hq hold)

/-- Glue on the way to a path leaves a tree, since the way is laid from the root on. -/
theorem IsTree.pave (h : nodes.IsTree) (path : Dn.Path) : (nodes.pave path).IsTree :=
  h.of_way fun _ => hasAt_pave

/-- The nodes with an entry at the path, the way to which is paved. -/
def put (nodes : Nodes) (path : Dn.Path) (held : StoredEntry) : Nodes :=
  (nodes.pave path.dropLast).insert path (some held)

/-- An entry is put in place of what was there, with glue on the way to it where there was
nothing. -/
theorem mem_put_iff {held : StoredEntry} {node : Option StoredEntry} :
    (p, node) ∈ (nodes.put path held).toList ↔ (p = path ∧ node = some held) ∨
      (p, node) ∈ (nodes.pave path.dropLast).toList ∧ p ≠ path := by
  rw [put, SortedMap.mem_insert_iff, Prod.mk.injEq]

/-- A put entry takes its way with it. -/
theorem hasAt_put {held : StoredEntry} :
    (nodes.put path held).hasAt p = true ↔ p <+: path ∨ nodes.hasAt p = true := by
  have hinsert : (nodes.put path held).hasAt p = true ↔
      p = path ∨ (nodes.pave path.dropLast).hasAt p = true := by
    rw [hasAt_iff, hasAt_iff, put, SortedMap.get?_isSome_insert_iff, or_left_comm]
  rw [hinsert, hasAt_pave]
  constructor
  · rintro (rfl | hway | hold)
    · exact .inl (List.prefix_refl p)
    · exact .inl (hway.trans (List.dropLast_prefix path))
    · exact .inr hold
  · rintro (hway | hold)
    · by_cases hp : p = path
      · exact .inl hp
      · exact .inr (.inl (Dn.prefix_dropLast_of_ne hway hp))
    · exact .inr (.inr hold)

/-- An entry that is put in with its way leaves a tree. -/
theorem IsTree.put (h : nodes.IsTree) (path : Dn.Path) (held : StoredEntry) :
    (nodes.put path held).IsTree :=
  h.of_way fun _ => hasAt_put

/-! ### Subtrees -/

/-- The nodes without the path and all that is below it. -/
def prune (nodes : Nodes) (path : Dn.Path) : Nodes :=
  nodes.filter fun x => !path.isPrefixOf x.1

/-- What is left is what does not stand at the path or below it. -/
theorem mem_prune_iff {node : Option StoredEntry} :
    (p, node) ∈ (nodes.prune path).toList ↔ (p, node) ∈ nodes.toList ∧ ¬ path <+: p := by
  rw [prune, SortedMap.toList_filter, List.mem_filter, Bool.not_eq_true', Bool.eq_false_iff, Ne,
    List.isPrefixOf_iff_prefix]

/-- Behind a pruning the path and all below it are out of use. -/
theorem hasAt_prune :
    (nodes.prune path).hasAt p = true ↔ p = [] ∨ nodes.hasAt p = true ∧ ¬ path <+: p := by
  simp only [hasAt_iff_mem, mem_prune_iff, exists_and_right]
  by_cases hp : p = []
  · simp [hp]
  · simp [hp]

/-- A tree from which a whole subtree is taken is a tree. -/
theorem IsTree.prune (h : nodes.IsTree) (path : Dn.Path) : (nodes.prune path).IsTree := by
  intro p q hq hp
  rw [hasAt_prune] at hp ⊢
  rcases hp with rfl | ⟨hp, hout⟩
  · exact .inl (List.prefix_nil.1 hq)
  · exact .inr ⟨h p q hq hp, fun hin => hout (hin.trans hq)⟩

/-- What is at the path and below it, by the paths that lead there from it. -/
def subtreeAt (nodes : Nodes) (path : Dn.Path) : Nodes where
  toList := nodes.toList.filterMap fun x =>
    if path.isPrefixOf x.1 then some (x.1.drop path.length, x.2) else none
  sorted := by
    refine List.Pairwise.filterMap _ ?_ nodes.sorted
    intro x y hxy x' hx' y' hy'
    obtain ⟨hx, hx'⟩ := Option.ite_none_right_eq_some.1 hx'
    obtain ⟨hy, hy'⟩ := Option.ite_none_right_eq_some.1 hy'
    obtain ⟨p, hp⟩ := List.isPrefixOf_iff_prefix.1 hx
    obtain ⟨q, hq⟩ := List.isPrefixOf_iff_prefix.1 hy
    rw [← hp, ← hq, Dn.compare_append_left] at hxy
    rw [← hp, List.drop_left] at hx'
    rw [← hq, List.drop_left] at hy'
    rwa [← Option.some.inj hx', ← Option.some.inj hy']

/-- What stands in a subtree stands in the tree behind the path of the subtree. -/
theorem mem_subtreeAt {node : Option StoredEntry} :
    (q, node) ∈ (nodes.subtreeAt path).toList ↔ (path ++ q, node) ∈ nodes.toList := by
  rw [subtreeAt, List.mem_filterMap]
  constructor
  · rintro ⟨⟨p, node'⟩, hmem, heq⟩
    obtain ⟨hbegins, heq⟩ := Option.ite_none_right_eq_some.1 heq
    obtain ⟨rest, rfl⟩ := List.isPrefixOf_iff_prefix.1 hbegins
    obtain ⟨rfl, rfl⟩ := Prod.mk.inj (Option.some.inj heq)
    rwa [List.drop_left]
  · intro hmem
    refine ⟨_, hmem, ?_⟩
    rw [if_pos (List.isPrefixOf_iff_prefix.2 (List.prefix_append path q)), List.drop_left]

/-- A path is in use in a subtree if it is so behind the path of the subtree. -/
theorem hasAt_subtreeAt :
    (nodes.subtreeAt path).hasAt q = true ↔ q = [] ∨ nodes.hasAt (path ++ q) = true := by
  simp only [hasAt_iff_mem, mem_subtreeAt, List.append_eq_nil_iff]
  by_cases hq : q = []
  · simp [hq]
  · simp [hq]

/-- A subtree that is cut off is a tree of its own. -/
theorem IsTree.subtreeAt (h : nodes.IsTree) (path : Dn.Path) : (nodes.subtreeAt path).IsTree := by
  intro p q hq hp
  rw [hasAt_subtreeAt] at hp ⊢
  rcases hp with rfl | hp
  · exact .inl (List.prefix_nil.1 hq)
  · exact .inr (h _ _ ((List.prefix_append_right_inj path).2 hq) hp)

/-- Which paths are in use does not depend on what stands there. -/
theorem hasAt_mapValues (f : Dn.Path → Option StoredEntry → Option StoredEntry) :
    hasAt (SortedMap.mapValues nodes f) p = true ↔ nodes.hasAt p = true := by
  simp only [hasAt_iff_mem, SortedMap.toList_mapValues, List.mem_map, Prod.mk.injEq]
  refine or_congr_right ⟨?_, ?_⟩
  · rintro ⟨_, ⟨p, node⟩, hmem, rfl, rfl⟩
    exact ⟨node, hmem⟩
  · rintro ⟨node, hmem⟩
    exact ⟨_, (p, node), hmem, rfl, rfl⟩

/-- A tree whose entries are changed at their places stays a tree. -/
theorem IsTree.mapValues (h : nodes.IsTree)
    (f : Dn.Path → Option StoredEntry → Option StoredEntry) :
    IsTree (SortedMap.mapValues nodes f) := by
  intro p q hq hp
  rw [hasAt_mapValues] at hp ⊢
  exact h p q hq hp

/-- Whether the place is at or below one that a child of the root of the subtree comes to when the
root is put at the path. -/
def covers (subtree : Nodes) (path p : Dn.Path) : Bool :=
  ((subtree.toList.map (·.1)).filter fun q => q.length == 1).any
    fun child => (path ++ child).isPrefixOf p

/-- A graft covers what stands under a first step of the subtree. -/
theorem covers_iff : subtree.covers path p = true ↔
    ∃ key, subtree.hasAt [key] = true ∧ path ++ [key] <+: p := by
  simp only [covers, List.any_eq_true, List.mem_filter, List.mem_map, beq_iff_eq,
    List.isPrefixOf_iff_prefix, hasAt_iff_mem]
  constructor
  · rintro ⟨child, ⟨⟨⟨q, node⟩, hmem, rfl⟩, hlength⟩, hbegins⟩
    obtain ⟨key, rfl⟩ := List.length_eq_one_iff.1 hlength
    exact ⟨key, .inr ⟨node, hmem⟩, hbegins⟩
  · rintro ⟨key, hnil | ⟨node, hmem⟩, hbegins⟩
    · exact absurd hnil (List.cons_ne_nil _ _)
    · exact ⟨[key], ⟨⟨_, hmem, rfl⟩, rfl⟩, hbegins⟩

/-- The nodes with a subtree put at the path, the way to which is paved.  What was below the path
stays, except where the subtree has a child of the same key. -/
def graft (nodes : Nodes) (path : Dn.Path) (subtree : Nodes) : Nodes :=
  let kept := (nodes.pave path).filter fun x => !subtree.covers path x.1
  kept.insertAll (subtree.toList.map fun x => (path ++ x.1, x.2))

/-- What is on the way to a place is not covered by what is put there. -/
theorem not_covers_of_isPrefix (hp : p <+: path) : ¬ subtree.covers path p = true := by
  intro hcovers
  obtain ⟨key, -, hbegins⟩ := covers_iff.1 hcovers
  have hlength := (hbegins.trans hp).length_le
  rw [List.length_append, List.length_singleton] at hlength
  omega

/-- The places that the nodes of a subtree come to are different. -/
theorem nodup_moved (subtree : Nodes) (path : Dn.Path) :
    ((subtree.toList.map fun x => (path ++ x.1, x.2)).map (·.1)).Nodup := by
  have hmap : (subtree.toList.map fun x => (path ++ x.1, x.2)).map (·.1) =
      (subtree.toList.map (·.1)).map (path ++ ·) := by
    rw [List.map_map, List.map_map]
    rfl
  rw [hmap]
  exact List.Pairwise.map _ (fun _ _ hne heq => hne (List.append_cancel_left heq))
    subtree.nodup_keys

/-- What is moved behind a path stands behind it where it stood before. -/
theorem mem_moved_iff {node : Option StoredEntry} :
    (p, node) ∈ subtree.toList.map (fun x => (path ++ x.1, x.2)) ↔
      ∃ q, (q, node) ∈ subtree.toList ∧ p = path ++ q := by
  simp only [List.mem_map, Prod.exists, Prod.mk.injEq]
  constructor
  · rintro ⟨q, node, hmem, rfl, rfl⟩
    exact ⟨q, hmem, rfl⟩
  · rintro ⟨q, hmem, rfl⟩
    exact ⟨q, node, hmem, rfl, rfl⟩

/-- The places of what is moved are the old ones behind the path. -/
theorem mem_keys_moved_iff :
    p ∈ (subtree.toList.map fun x => (path ++ x.1, x.2)).map (·.1) ↔
      ∃ q node, (q, node) ∈ subtree.toList ∧ p = path ++ q := by
  rw [List.mem_map]
  constructor
  · rintro ⟨⟨p, node⟩, hmem, rfl⟩
    obtain ⟨q, hq⟩ := mem_moved_iff.1 hmem
    exact ⟨q, node, hq⟩
  · rintro ⟨q, node, hq⟩
    exact ⟨(p, node), mem_moved_iff.2 ⟨q, hq⟩, rfl⟩

/-- Grafting puts the nodes of the subtree at their places, and leaves what is neither there nor
covered. -/
theorem mem_graft_iff {node : Option StoredEntry} :
    (p, node) ∈ (nodes.graft path subtree).toList ↔
      (∃ q, (q, node) ∈ subtree.toList ∧ p = path ++ q) ∨
        ((p, node) ∈ (nodes.pave path).toList ∧ ¬ subtree.covers path p = true) ∧
          ¬ ∃ q other, (q, other) ∈ subtree.toList ∧ p = path ++ q := by
  rw [graft, SortedMap.mem_insertAll_iff (nodup_moved subtree path), mem_moved_iff,
    mem_keys_moved_iff, SortedMap.toList_filter, List.mem_filter, Bool.not_eq_true',
    Bool.eq_false_iff]

/-- A graft puts into use its way and what the subtree has, and takes out of use what it covers. -/
theorem hasAt_graft : (nodes.graft path subtree).hasAt p = true ↔
    p <+: path ∨ (∃ q, subtree.hasAt q = true ∧ p = path ++ q) ∨
      nodes.hasAt p = true ∧ ¬ subtree.covers path p = true := by
  have hway : p <+: path → ¬ subtree.covers path p = true := not_covers_of_isPrefix
  -- the nodes of the subtree first, and then what the way to it and the old nodes leave
  have hnode : (nodes.graft path subtree).hasAt p = true ↔
      (∃ q node, (q, node) ∈ subtree.toList ∧ p = path ++ q) ∨
        (nodes.pave path).hasAt p = true ∧ ¬ subtree.covers path p = true := by
    rw [hasAt_iff, hasAt_iff, graft, SortedMap.get?_isSome_insertAll_iff, mem_keys_moved_iff,
      SortedMap.get?_isSome_filter_iff fun q => !subtree.covers path q, Bool.not_eq_true',
      Bool.eq_false_iff, or_left_comm]
    refine or_congr_right ⟨?_, ?_⟩
    · rintro (rfl | ⟨hp, hkept⟩)
      · exact ⟨.inl rfl, hway List.nil_prefix⟩
      · exact ⟨.inr hp, hkept⟩
    · rintro ⟨rfl | hp, hkept⟩
      · exact .inl rfl
      · exact .inr ⟨hp, hkept⟩
  rw [hnode, hasAt_pave]
  constructor
  · rintro (⟨q, node, hmem, rfl⟩ | ⟨hp | hp, hkept⟩)
    · exact .inr (.inl ⟨q, hasAt_iff_mem.2 (.inr ⟨node, hmem⟩), rfl⟩)
    · exact .inl hp
    · exact .inr (.inr ⟨hp, hkept⟩)
  · rintro (hp | ⟨q, hq, rfl⟩ | ⟨hp, hkept⟩)
    · exact .inr ⟨.inl hp, hway hp⟩
    · rcases hasAt_iff_mem.1 hq with rfl | ⟨node, hmem⟩
      · rw [List.append_nil] at hway ⊢
        exact .inr ⟨.inl (List.prefix_refl path), hway (List.prefix_refl path)⟩
      · exact .inl ⟨q, node, hmem, rfl⟩
    · exact .inr ⟨.inr hp, hkept⟩

/-- What is grafted below a node is a tree with it. -/
theorem IsTree.graft (h : nodes.IsTree) (path : Dn.Path) (hsubtree : subtree.IsTree) :
    (nodes.graft path subtree).IsTree := by
  intro p q hq hp
  rw [hasAt_graft] at hp ⊢
  -- a node is on the way to the subtree, within it, or an old one outside of it
  rcases hp with hway | ⟨r, hr, rfl⟩ | ⟨hp, hkept⟩
  · exact .inl (hq.trans hway)
  · rcases List.prefix_or_prefix_of_prefix hq (List.prefix_append path r) with hway | ⟨s, rfl⟩
    · exact .inl hway
    · exact .inr (.inl ⟨s, hsubtree r s ((List.prefix_append_right_inj path).1 hq) hr, rfl⟩)
  · refine .inr (.inr ⟨h p q hq hp, fun hcovers => hkept ?_⟩)
    obtain ⟨key, hkey, hbegins⟩ := covers_iff.1 hcovers
    exact covers_iff.2 ⟨key, hkey, hbegins.trans hq⟩

end Nodes

end DirectoryExchange

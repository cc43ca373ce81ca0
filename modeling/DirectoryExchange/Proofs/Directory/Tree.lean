import DirectoryExchange.Proofs.Directory.Runs
import Mathlib.Data.List.Infix

/-!
# The nodes behind changes

Where there are nodes behind a change can be told from where they have been before: an entry is put
in with the way to it (`hasNodeAt_putEntry`), a deletion takes out what is at a place and below it
(`hasNodeAt_prune`), and a rename takes a subtree to its new place, where its children overrun what
has been there (`hasNodeAt_transplant`).
-/

namespace DirectoryExchange.Directory

variable {d : Directory} {path newPath p : Dn.Path}

/-! ### Ways and subtrees -/

/-- An entry is put in with the way to it. -/
lemma hasNodeAt_putEntry {held : StoredEntry} :
    (d.putEntry path held).hasNodeAt p = true ↔ p <+: path ∨ d.hasNodeAt p = true :=
  Nodes.hasAt_put

lemma hasNodeAt_prune :
    (d.prune path).hasNodeAt p = true ↔ p = [] ∨ d.hasNodeAt p = true ∧ ¬ path <+: p :=
  Nodes.hasAt_prune

/-- The nodes of a subtree are those behind its path. -/
lemma hasNodeAt_subtreeAt :
    (d.subtreeAt path).hasNodeAt p = true ↔ p = [] ∨ d.hasNodeAt (path ++ p) = true :=
  Nodes.hasAt_subtreeAt

/-- Nothing is paved where there is a way. -/
lemma pave_eq_self (h : d.hasNodeAt path = true) : d.pave path = d := by
  refine Directory.ext (SortedMap.eq_of_mem_iff ?_)
  rintro ⟨q, node⟩
  rw [pave, Nodes.mem_pave_iff, or_iff_left]
  rintro ⟨-, hq, hnone⟩
  obtain ⟨hnil, hbegins⟩ := Dn.mem_beginnings.1 hq
  rcases hasNodeAt_iff.1 (hasNodeAt_of_isPrefix h hbegins) with hroot | ⟨other, hother⟩
  · exact hnil hroot
  · exact hnone other hother

/-! ### Renames -/

/-- Whether the place is at or below one that a child of the node at `path` comes to when that node
goes to `newPath`. -/
def overruns (d : Directory) (path newPath p : Dn.Path) : Bool :=
  (d.subtreeAt path).nodes.covers newPath p

/-- A rename overruns what stands at the new place of a child, or below that. -/
lemma overruns_iff : d.overruns path newPath p = true ↔
    ∃ key, d.hasNodeAt (path ++ [key]) = true ∧ newPath ++ [key] <+: p := by
  rw [overruns, Nodes.covers_iff]
  refine exists_congr fun key => and_congr_left fun _ => ?_
  exact hasNodeAt_subtreeAt.trans (or_iff_right (List.cons_ne_nil _ _))

/-- New names make no difference to what is overrun. -/
lemma covers_rebase_iff {top : StoredEntry} :
    ((d.subtreeAt path).rebase top).nodes.covers newPath p = true ↔
      d.overruns path newPath p = true := by
  have hchild : ∀ key, ((d.subtreeAt path).rebase top).nodes.hasAt [key] = true ↔
      (d.subtreeAt path).nodes.hasAt [key] = true := fun _ => Nodes.hasAt_mapValues _
  simp only [overruns, Nodes.covers_iff, hchild]

/-- Behind a move there are the nodes of the subtree at their new places, those on the way there,
and those from elsewhere that have not been overrun. -/
lemma hasNodeAt_transplant (hpath : d.hasNodeAt path = true) (newPath : Dn.Path)
    (top : StoredEntry) :
    (d.transplant path newPath top).hasNodeAt p = true ↔
      (∃ q, d.hasNodeAt (path ++ q) = true ∧ p = newPath ++ q) ∨ p <+: newPath ∨
        (d.hasNodeAt p = true ∧ ¬ path <+: p ∧ ¬ d.overruns path newPath p = true) := by
  have hgraft : (d.transplant path newPath top).hasNodeAt p = true ↔
      p <+: newPath ∨
        (∃ q, ((d.subtreeAt path).rebase top).hasNodeAt q = true ∧ p = newPath ++ q) ∨
          (d.prune path).hasNodeAt p = true ∧
            ¬ ((d.subtreeAt path).rebase top).nodes.covers newPath p = true :=
    Nodes.hasAt_graft
  have hmoved : ∀ q, (d.subtreeAt path).hasNodeAt q = true ↔ d.hasNodeAt (path ++ q) = true := by
    intro q
    rw [hasNodeAt_subtreeAt, or_iff_right_of_imp]
    rintro rfl
    rwa [List.append_nil]
  simp only [hgraft, hasNodeAt_rebase, hmoved, covers_rebase_iff, hasNodeAt_prune]
  rw [or_left_comm]
  refine or_congr_right ⟨?_, ?_⟩
  · rintro (hway | ⟨rfl | ⟨hnode, hout⟩, hover⟩)
    · exact .inl hway
    · exact .inl List.nil_prefix
    · exact .inr ⟨hnode, hout, hover⟩
  · exact .imp_right fun ⟨hnode, hout, hover⟩ => ⟨.inr ⟨hnode, hout⟩, hover⟩

/-! ### Entries behind a rename -/

/-- A subtree that is given its new names has the renamed entry at its top, and below it what was
there, under new names. -/
lemma entryAt?_rebase {held : StoredEntry} (hheld : d.entryAt? path = some held)
    (top : StoredEntry) (q : Dn.Path) : ((d.subtreeAt path).rebase top).entryAt? q =
      if q = [] then some top
      else (d.entryAt? (path ++ q)).map (underNewName (d.subtreeAt path) top.dn q) := by
  have hroot : ∃ old, ([], old) ∈ (d.subtreeAt path).nodes.toList := by
    refine ⟨some held, mem_subtreeAt.2 ?_⟩
    rw [List.append_nil]
    exact mem_occupied.1 (entryAt?_eq_some_iff.1 hheld)
  refine Option.ext fun s => ?_
  rw [entryAt?_eq_some_iff, mem_occupied, mem_rebase, Option.some_inj]
  by_cases hq : q = []
  · simp [hq, hroot, eq_comm]
  · simp only [hq, false_and, false_or, ne_eq, not_false_eq_true, true_and, if_false,
      Option.map_eq_some_iff, entryAt?_eq_some_iff, mem_occupied, mem_subtreeAt]
    constructor
    · rintro ⟨old, hmem, hs⟩
      obtain ⟨old, rfl, hname⟩ := Option.map_eq_some_iff.1 hs.symm
      exact ⟨old, hmem, hname⟩
    · rintro ⟨old, hmem, rfl⟩
      exact ⟨some old, hmem, rfl⟩

/-- A subtree with new names has its entries where the directory has them. -/
lemma entryAt?_rebase_isSome {held : StoredEntry} (hheld : d.entryAt? path = some held)
    (top : StoredEntry) (q : Dn.Path) :
    (((d.subtreeAt path).rebase top).entryAt? q).isSome = (d.entryAt? (path ++ q)).isSome := by
  rw [entryAt?_rebase hheld]
  split
  · next hq => rw [hq, List.append_nil, hheld]; rfl
  · rw [Option.isSome_map]

/-- Whether the place is neither in the subtree that moves from `path` to `newPath` nor overrun by
it. -/
def Stays (d : Directory) (path newPath p : Dn.Path) : Prop :=
  ¬ path <+: p ∧ ¬ d.overruns path newPath p = true

/-- What is where a node from below the moved one comes to does not stay there. -/
lemma not_stays_of_hasNodeAt {q : Dn.Path} (hq : q ≠ []) (hnode : d.hasNodeAt (path ++ q) = true) :
    ¬ d.Stays path newPath (newPath ++ q) := by
  obtain ⟨key, q, rfl⟩ := List.exists_cons_of_ne_nil hq
  refine fun h => h.2 (overruns_iff.2 ⟨key, ?_, ⟨q, by simp⟩⟩)
  exact hasNodeAt_of_isPrefix hnode ⟨q, by simp⟩

section Vacant

variable (hvacant : newPath ≠ path → d.entryAt? newPath = none)
include hvacant

/-- No node of the subtree comes to a place where an entry stays. -/
lemma ne_of_stays (hentry : (d.entryAt? p).isSome) (hstays : d.Stays path newPath p)
    {q : Dn.Path} (hnode : q = [] ∨ d.hasNodeAt (path ++ q) = true) : p ≠ newPath ++ q := by
  rintro rfl
  by_cases hq : q = []
  · -- an entry that is at the new place is the one that moves
    subst hq
    rw [List.append_nil] at hentry hstays
    have hsame : newPath = path := by
      by_contra hne
      rw [hvacant hne] at hentry
      cases hentry
    exact hstays.1 (hsame ▸ List.prefix_refl _)
  · exact not_stays_of_hasNodeAt hq (hnode.resolve_left hq) hstays

variable (top : StoredEntry)

/-- Behind a move there are the entries of the subtree with their new names at their new places,
and those from elsewhere that stay. -/
lemma entryAt?_transplant_iff {s : StoredEntry} :
    (d.transplant path newPath top).entryAt? p = some s ↔
      (∃ q, ((d.subtreeAt path).rebase top).entryAt? q = some s ∧ p = newPath ++ q) ∨
        (d.entryAt? p = some s ∧ d.Stays path newPath p) := by
  have hkept : (p, s) ∈ ((d.prune path).pave newPath).occupied.toList ↔
      d.entryAt? p = some s ∧ ¬ path <+: p := by
    rw [occupied_pave, mem_occupied, entryAt?_eq_some_iff, mem_occupied]
    exact Nodes.mem_prune_iff
  rw [mem_occupied] at hkept
  refine entryAt?_eq_some_iff.trans
    (mem_occupied.trans (Nodes.mem_graft_iff.trans (or_congr ?_ ?_)))
  · simp only [entryAt?_eq_some_iff, mem_occupied]
  · rw [covers_rebase_iff]
    constructor
    · rintro ⟨⟨hmem, hover⟩, -⟩
      obtain ⟨hs, hout⟩ := hkept.1 hmem
      exact ⟨hs, hout, hover⟩
    · rintro ⟨hs, hstays⟩
      refine ⟨⟨hkept.2 ⟨hs, hstays.1⟩, hstays.2⟩, ?_⟩
      rintro ⟨q, node, hmem, hp⟩
      have hnode : (d.subtreeAt path).hasNodeAt q = true := by
        rw [← hasNodeAt_rebase _ top]
        exact hasNodeAt_iff.2 (.inr ⟨node, hmem⟩)
      exact ne_of_stays hvacant (by rw [hs]; rfl) hstays (hasNodeAt_subtreeAt.1 hnode) hp

/-- In short: there are entries where those of the subtree come to, and where others stay. -/
lemma entryAt?_transplant_isSome_iff {held : StoredEntry} (hheld : d.entryAt? path = some held) :
    ((d.transplant path newPath top).entryAt? p).isSome ↔
      (∃ q, (d.entryAt? (path ++ q)).isSome ∧ p = newPath ++ q) ∨
        ((d.entryAt? p).isSome ∧ d.Stays path newPath p) := by
  rw [Option.isSome_iff_exists]
  simp only [entryAt?_transplant_iff hvacant top, ← entryAt?_rebase_isSome hheld top, exists_or,
    exists_and_right, ← Option.isSome_iff_exists]
  refine or_congr_left ?_
  rw [exists_comm]
  simp only [exists_and_right, ← Option.isSome_iff_exists]

end Vacant

/-! ### The new parent -/

/-- The new parent is the root or a node, and it is not in the subtree that moves. -/
lemma parent_of_newParent (hpath : path ≠ []) (hnode : d.hasNodeAt path = true) {dn : String}
    {rename : Rename} {parentPath : Dn.Path} {parentDn : String}
    (hparent : d.newParent dn path rename = .ok (parentPath, parentDn)) :
    d.hasNodeAt parentPath = true ∧ ¬ path <+: parentPath := by
  unfold newParent at hparent
  split at hparent
  · obtain ⟨rfl, -⟩ := Prod.mk.inj (Except.ok.inj hparent)
    exact ⟨hasNodeAt_of_isPrefix hnode (List.dropLast_prefix path), not_prefix_dropLast hpath⟩
  · next superior _ =>
    obtain ⟨superiorPath, -, hparent⟩ := bind_eq_ok_iff.1 hparent
    split at hparent
    · simp at hparent
    next hout =>
    split at hparent
    · next hthere =>
      obtain ⟨rfl, -⟩ := Prod.mk.inj (Except.ok.inj hparent)
      refine ⟨?_, by rwa [List.isPrefixOf_iff_prefix] at hout⟩
      rcases Bool.or_eq_true_iff.1 hthere with hnil | hsome
      · rw [List.isEmpty_iff.1 hnil]
        rfl
      · exact hasNodeAt_of_entry hsome (List.prefix_refl _)
    · simp at hparent

end DirectoryExchange.Directory

import DirectoryExchange.Ldap.ReceivedEntry
import DirectoryExchange.Proofs.Model.Gathering
import DirectoryExchange.Proofs.SortedMap

/-!
# Entries in whatever order they arrive

An entry that is received has its attributes in an order of its own, and those of texts and those of
other octets apart.  What stands under a name in the end (`ReceivedEntry.Under`) and how the
attributes follow each other (`Ordered`) does not depend on the order of arrival, and leaves no
choice: `toEntry_received`.
-/

namespace DirectoryExchange.Ldap

/-! ### Ranks -/

namespace Rank

/-- Ranks are compared by their groups first, and then by their names. -/
lemma compare_eq (r s : Rank) :
    compare r s = (compare r.group s.group).then (compare r.name s.name) := rfl

instance : Std.LawfulEqOrd Rank where
  eq_of_compare {r s} h := by
    obtain ⟨group, name⟩ := r
    obtain ⟨group', name'⟩ := s
    change (compare group group').then (compare name name') = .eq at h
    rw [Ordering.then_eq_eq] at h
    rw [Std.LawfulEqOrd.eq_of_compare h.1, Std.LawfulEqOrd.eq_of_compare h.2]

variable {a b : String}

/-- Spellings of one name have one place. -/
lemma of_eq_iff : of a = of b ↔ sameName a b := by
  rw [sameName_iff, of, of, Rank.mk.injEq]
  constructor
  · exact And.right
  · intro h
    simp [isObjectClass, sameName, h]

/-- The object classes come first, and the others in the order of their names. -/
lemma compare_of_eq_lt_iff : compare (of a) (of b) = .lt ↔
    isObjectClass b = false ∧
      (isObjectClass a = true ∨ compare (CaseFold.fold a) (CaseFold.fold b) = .lt) := by
  have hfirst : compare 0 1 = Ordering.lt := rfl
  have hlast : compare 1 0 = Ordering.gt := rfl
  rw [compare_eq]
  simp only [of]
  cases ha : isObjectClass a <;> cases hb : isObjectClass b
  · simp
  · simp [hlast]
  · simp [hfirst]
  · have hsame : CaseFold.fold b = CaseFold.fold a := by
      rw [isObjectClass, sameName_iff] at ha hb
      rw [ha, hb]
    simp [hsame]

end Rank

/-! ### Namesakes -/

/-- The attributes that have the name, in any spelling. -/
def namesakes (name : String) (attributes : List (String × List Bytes)) :
    List (String × List Bytes) :=
  attributes.filter fun a => sameName a.1 name

section Namesakes

variable {name : String} {attributes : List (String × List Bytes)} {a : String × List Bytes}

/-- The namesakes of a name are the attributes that have it, in any spelling. -/
lemma mem_namesakes : a ∈ namesakes name attributes ↔ a ∈ attributes ∧ sameName a.1 name :=
  List.mem_filter

lemma namesakes_append (name : String) (attributes more : List (String × List Bytes)) :
    namesakes name (attributes ++ more) = namesakes name attributes ++ namesakes name more :=
  List.filter_append ..

/-- Spellings of one name have the same namesakes. -/
lemma namesakes_congr {other : String} (h : sameName name other)
    (attributes : List (String × List Bytes)) :
    namesakes name attributes = namesakes other attributes := by
  rw [sameName_iff] at h
  simp only [namesakes, sameName, h]

lemma namesakes_eq_nil (h : ∀ a ∈ attributes, ¬ sameName a.1 name) :
    namesakes name attributes = [] :=
  List.filter_eq_nil_iff.2 h

/-- Among attributes of different names, one has no namesake but itself. -/
lemma namesakes_of_mem
    (hdistinct : attributes.Pairwise fun a b => ¬ sameName a.1 b.1) (ha : a ∈ attributes)
    (hname : sameName a.1 name) : namesakes name attributes = [a] := by
  obtain ⟨before, behind, rfl⟩ := List.append_of_mem ha
  obtain ⟨-, hbehind, hbefore⟩ := List.pairwise_append.1 hdistinct
  have hnot : ∀ b, ¬ sameName a.1 b → ¬ sameName b name := by
    intro b hb hsame
    rw [sameName_comm] at hsame
    exact hb (sameName_trans hname hsame)
  have hleft : namesakes name before = [] := by
    refine namesakes_eq_nil fun b hb => hnot b.1 ?_
    rw [sameName_comm]
    exact hbefore b hb a List.mem_cons_self
  have hright : namesakes name behind = [] :=
    namesakes_eq_nil fun b hb => hnot b.1 ((List.pairwise_cons.1 hbehind).1 b hb)
  rw [namesakes_append, hleft, List.nil_append, namesakes, List.filter_cons_of_pos (by exact hname)]
  exact congrArg _ hright

/-- Among attributes of different names, a name has one namesake or none. -/
lemma namesakes_cases (hdistinct : attributes.Pairwise fun a b => ¬ sameName a.1 b.1)
    (name : String) :
    (∃ a ∈ attributes, sameName a.1 name ∧ namesakes name attributes = [a]) ∨
      (∀ a ∈ attributes, ¬ sameName a.1 name) ∧ namesakes name attributes = [] := by
  by_cases h : ∃ a ∈ attributes, sameName a.1 name
  · obtain ⟨a, ha, hname⟩ := h
    exact .inl ⟨a, ha, hname, namesakes_of_mem hdistinct ha hname⟩
  · have hnone : ∀ a ∈ attributes, ¬ sameName a.1 name := fun a ha hname => h ⟨a, ha, hname⟩
    exact .inr ⟨hnone, namesakes_eq_nil hnone⟩

end Namesakes

/-! ### What is ranked -/

/-- Attributes put together: spelled as the first, with all values in order. -/
def joined? : List (String × List Bytes) → Option (String × List Bytes)
  | [] => none
  | first :: rest => some (first.1, (first :: rest).flatMap (·.2))

/-- A further namesake adds its values under the first spelling. -/
lemma joined?_concat (attributes : List (String × List Bytes)) (a : String × List Bytes) :
    joined? (attributes ++ [a]) =
      some (match joined? attributes with
        | some (spelling, held) => (spelling, held ++ a.2)
        | none => a) := by
  cases attributes with
  | nil => simp [joined?]
  | cons first rest => simp [joined?]

/-- An attribute that is ranked joins the one at its rank, or begins it. -/
lemma get?_addRanked (ranked : RankedAttributes) (name : String) (values : List Bytes) (k : Rank) :
    (addRanked ranked name values).get? k =
      if k = Rank.of name then
        some (match ranked.get? (Rank.of name) with
          | some (spelling, held) => (spelling, held ++ values)
          | none => (name, values))
      else ranked.get? k := by
  unfold addRanked
  cases ranked.get? (Rank.of name) with
  | none => exact SortedMap.get?_insert ..
  | some held => exact SortedMap.get?_insert ..

/-- The last attribute is ranked behind the others. -/
lemma addAllRanked_concat (attributes : List (String × List Bytes)) (a : String × List Bytes) :
    addAllRanked .empty (attributes ++ [a]) =
      addRanked (addAllRanked .empty attributes) a.1 a.2 := by
  rw [addAllRanked, List.foldl_append]
  rfl

/-- Attributes that are ranked one after the other are put together with their namesakes. -/
theorem get?_addAllRanked (attributes : List (String × List Bytes)) (name : String) :
    (addAllRanked .empty attributes).get? (Rank.of name) = joined? (namesakes name attributes) := by
  induction attributes using List.reverseRecOn with
  | nil => rfl
  | append_singleton attributes a ih =>
    rw [addAllRanked_concat, get?_addRanked, namesakes_append]
    by_cases hname : sameName a.1 name
    · have hrank : Rank.of name = Rank.of a.1 := by rw [Rank.of_eq_iff, sameName_comm, hname]
      have hsingle : namesakes name [a] = [a] := List.filter_cons_of_pos (by exact hname)
      rw [if_pos hrank, ← hrank, ih, hsingle, joined?_concat]
    · have hrank : ¬ Rank.of name = Rank.of a.1 := by rwa [Rank.of_eq_iff, sameName_comm]
      have hnone : namesakes name [a] = [] := namesakes_eq_nil (by simpa using hname)
      rw [if_neg hrank, ih, hnone, List.append_nil]

/-- Only places of names are taken. -/
lemma exists_rank_of_get? {attributes : List (String × List Bytes)} {k : Rank}
    {a : String × List Bytes} (h : (addAllRanked .empty attributes).get? k = some a) :
    ∃ name, k = Rank.of name := by
  induction attributes using List.reverseRecOn generalizing a with
  | nil => cases h
  | append_singleton attributes b ih =>
    rw [addAllRanked_concat, get?_addRanked] at h
    split at h
    · next hk => exact ⟨b.1, hk⟩
    · exact ih h

/-- What is ranked has the place of its name, and is put together from its namesakes. -/
lemma mem_addAllRanked_iff {attributes : List (String × List Bytes)} {k : Rank}
    {a : String × List Bytes} : (k, a) ∈ (addAllRanked .empty attributes).toList ↔
      k = Rank.of a.1 ∧ joined? (namesakes a.1 attributes) = some a := by
  rw [← SortedMap.get?_eq_some_iff]
  constructor
  · intro h
    obtain ⟨name, rfl⟩ := exists_rank_of_get? h
    rw [get?_addAllRanked] at h
    have hname : sameName a.1 name := by
      cases hfound : namesakes name attributes with
      | nil =>
        rw [hfound] at h
        cases h
      | cons first rest =>
        have hfirst : first ∈ namesakes name attributes := by simp [hfound]
        rw [hfound] at h
        obtain rfl := Option.some.inj h
        exact (mem_namesakes.1 hfirst).2
    refine ⟨(Rank.of_eq_iff.2 hname).symm, ?_⟩
    rwa [namesakes_congr hname]
  · rintro ⟨rfl, h⟩
    rwa [get?_addAllRanked]

/-! ### What stands under a name -/

/-- What stands under a name when texts and other octets come together: the attribute is spelled as
that of the texts, if there is one, whose values come first. -/
inductive ReceivedEntry.Under (r : ReceivedEntry) : String → List Bytes → Prop
  /-- There are only texts. -/
  | texts {a : String × List Bytes} (ha : a ∈ r.texts)
      (hother : ∀ b ∈ r.binaries, ¬ sameName b.1 a.1) : Under r a.1 a.2
  /-- There are only other octets. -/
  | binaries {b : String × List Bytes} (hb : b ∈ r.binaries)
      (hother : ∀ a ∈ r.texts, ¬ sameName a.1 b.1) : Under r b.1 b.2
  /-- There are both. -/
  | both {a b : String × List Bytes} (ha : a ∈ r.texts) (hb : b ∈ r.binaries)
      (hsame : sameName b.1 a.1) : Under r a.1 (a.2 ++ b.2)

namespace ReceivedEntry

variable {r r' : ReceivedEntry}

/-- What stands under a name does not depend on the order of arrival. -/
lemma Under.congr (htexts : ∀ a, a ∈ r.texts ↔ a ∈ r'.texts)
    (hbinaries : ∀ b, b ∈ r.binaries ↔ b ∈ r'.binaries) {name : String} {values : List Bytes}
    (h : r.Under name values) : r'.Under name values := by
  cases h with
  | texts ha hother =>
    exact .texts ((htexts _).1 ha) fun b hb => hother b ((hbinaries b).2 hb)
  | binaries hb hother =>
    exact .binaries ((hbinaries _).1 hb) fun a ha => hother a ((htexts a).2 ha)
  | both ha hb hsame => exact .both ((htexts _).1 ha) ((hbinaries _).1 hb) hsame

/-- Every attribute that is received stands under its name. -/
lemma exists_under {a : String × List Bytes} (ha : a ∈ r.texts ++ r.binaries) :
    ∃ name values, r.Under name values ∧ sameName name a.1 ∧ a.2 ⊆ values := by
  rcases List.mem_append.1 ha with ha | ha
  · by_cases h : ∃ b ∈ r.binaries, sameName b.1 a.1
    · obtain ⟨b, hb, hsame⟩ := h
      exact ⟨a.1, _, .both ha hb hsame, sameName_refl _, List.subset_append_left _ _⟩
    · exact ⟨a.1, a.2, .texts ha fun b hb hsame => h ⟨b, hb, hsame⟩, sameName_refl _,
        List.Subset.refl _⟩
  · by_cases h : ∃ b ∈ r.texts, sameName a.1 b.1
    · obtain ⟨b, hb, hsame⟩ := h
      refine ⟨b.1, _, .both hb ha hsame, ?_, List.subset_append_right _ _⟩
      rwa [sameName_comm]
    · refine ⟨a.1, a.2, .binaries ha fun b hb hsame => h ⟨b, hb, ?_⟩, sameName_refl _,
        List.Subset.refl _⟩
      rwa [sameName_comm]

/-- Values that stand under a name have been received under it. -/
lemma Under.exists_mem {name : String} {values : List Bytes} (h : r.Under name values)
    (hvalues : values ≠ []) :
    ∃ a ∈ r.texts ++ r.binaries, sameName a.1 name ∧ a.2 ≠ [] := by
  cases h with
  | texts ha _ => exact ⟨_, List.mem_append_left _ ha, sameName_refl _, hvalues⟩
  | binaries hb _ => exact ⟨_, List.mem_append_right _ hb, sameName_refl _, hvalues⟩
  | @both a b ha hb hsame =>
    by_cases hempty : a.2 = []
    · refine ⟨b, List.mem_append_right _ hb, hsame, fun h => hvalues ?_⟩
      rw [hempty, h, List.append_nil]
    · exact ⟨a, List.mem_append_left _ ha, sameName_refl _, hempty⟩

/-- Whether an attribute with values has the empty name. -/
def Nameless (r : ReceivedEntry) : Prop :=
  ∃ a ∈ r.texts ++ r.binaries, a.1 = "" ∧ a.2 ≠ []

/-- An entry is nameless if values stand under the empty name. -/
lemma nameless_iff : r.Nameless ↔ ∃ values, r.Under "" values ∧ values ≠ [] := by
  constructor
  · rintro ⟨a, ha, hname, hvalues⟩
    obtain ⟨name, values, hunder, hsame, hsub⟩ := exists_under ha
    rw [hname, sameName_empty_iff] at hsame
    subst hsame
    obtain ⟨v, hv⟩ := List.exists_mem_of_ne_nil a.2 hvalues
    exact ⟨values, hunder, List.ne_nil_of_mem (hsub hv)⟩
  · rintro ⟨values, hunder, hvalues⟩
    obtain ⟨a, ha, hsame, hne⟩ := hunder.exists_mem hvalues
    exact ⟨a, ha, sameName_empty_iff.1 hsame, hne⟩

end ReceivedEntry

/-! ### The entry -/

/-- Whether the object classes come first and the others in ascending order of their names. -/
def Ordered (attributes : List Attribute) : Prop :=
  attributes.Pairwise fun a b => b.isObjectClass = false ∧
    (a.isObjectClass = true ∨ compare (CaseFold.fold a.name) (CaseFold.fold b.name) = .lt)

namespace ReceivedEntry

/-- What is received, in order. -/
def ranking (r : ReceivedEntry) : RankedAttributes := addAllRanked .empty (r.texts ++ r.binaries)

/-- The groups of the entry. -/
def groups (r : ReceivedEntry) : List (String × List Bytes) :=
  (r.ranking.toList.map (·.2)).filter fun g => g.2 ≠ []

end ReceivedEntry

section Received

variable {r : ReceivedEntry} (htexts : r.texts.Pairwise fun a b => ¬ sameName a.1 b.1)
  (hbinaries : r.binaries.Pairwise fun a b => ¬ sameName a.1 b.1)

include htexts hbinaries

/-- Attributes put together with their namesakes are what stands under their name. -/
lemma joined?_namesakes_iff {name : String} {values : List Bytes} :
    joined? (namesakes name (r.texts ++ r.binaries)) = some (name, values) ↔
      r.Under name values := by
  rw [namesakes_append]
  constructor
  · intro h
    rcases namesakes_cases htexts name with ⟨a, ha, hname, htext⟩ | ⟨hnone, htext⟩ <;>
      rcases namesakes_cases hbinaries name with ⟨b, hb, hname', hbinary⟩ | ⟨hnone', hbinary⟩ <;>
      rw [htext, hbinary] at h
    · obtain ⟨rfl, rfl⟩ : a.1 = name ∧ a.2 ++ b.2 = values := by simpa [joined?] using h
      exact .both ha hb hname'
    · obtain ⟨rfl, rfl⟩ : a.1 = name ∧ a.2 = values := by
        simpa [joined?, Prod.ext_iff] using h
      exact .texts ha hnone'
    · obtain ⟨rfl, rfl⟩ : b.1 = name ∧ b.2 = values := by
        simpa [joined?, Prod.ext_iff] using h
      exact .binaries hb hnone
    · cases h
  · intro h
    cases h with
    | @texts a ha hother =>
      rw [namesakes_of_mem htexts ha (sameName_refl _), namesakes_eq_nil hother]
      simp [joined?]
    | @binaries b hb hother =>
      rw [namesakes_eq_nil hother, namesakes_of_mem hbinaries hb (sameName_refl _)]
      simp [joined?]
    | @both a b ha hb hsame =>
      rw [namesakes_of_mem htexts ha (sameName_refl _), namesakes_of_mem hbinaries hb hsame]
      simp [joined?]

namespace ReceivedEntry

/-- In the ranking each name stands at its rank with all that is under it. -/
lemma mem_ranking_iff {k : Rank} {a : String × List Bytes} :
    (k, a) ∈ r.ranking.toList ↔ k = Rank.of a.1 ∧ r.Under a.1 a.2 := by
  rw [ranking, mem_addAllRanked_iff]
  exact and_congr_right fun _ => joined?_namesakes_iff htexts hbinaries

/-- Whatever the order of arrival, the order is the same in the end. -/
lemma ranking_of_perm {r' : ReceivedEntry} (htexts' : r'.texts.Perm r.texts)
    (hbinaries' : r'.binaries.Perm r.binaries) : r'.ranking = r.ranking := by
  have hsymm : ∀ {a b : String × List Bytes}, ¬ sameName a.1 b.1 → ¬ sameName b.1 a.1 :=
    fun {a b} h => by rwa [sameName_comm]
  refine SortedMap.eq_of_mem_iff ?_
  rintro ⟨k, a⟩
  rw [mem_ranking_iff htexts hbinaries, mem_ranking_iff (htexts.perm htexts'.symm hsymm)
    (hbinaries.perm hbinaries'.symm hsymm)]
  refine and_congr_right fun _ => ⟨?_, ?_⟩
  · exact Under.congr (fun _ => htexts'.mem_iff) (fun _ => hbinaries'.mem_iff)
  · exact Under.congr (fun _ => htexts'.mem_iff.symm) (fun _ => hbinaries'.mem_iff.symm)

/-- Attributes are ranked in ascending order. -/
lemma pairwise_ranking : (r.ranking.toList.map (·.2)).Pairwise fun a b =>
    compare (Rank.of a.1) (Rank.of b.1) = .lt := by
  rw [List.pairwise_map]
  refine r.ranking.sorted.imp_of_mem ?_
  rintro ⟨k, a⟩ ⟨k', b⟩ ha hb hlt
  obtain ⟨rfl, -⟩ := (mem_ranking_iff htexts hbinaries).1 ha
  obtain ⟨rfl, -⟩ := (mem_ranking_iff htexts hbinaries).1 hb
  exact hlt

/-- No two attributes in the ranking have the same name. -/
lemma distinct_ranking : ((r.ranking.toList.map (·.2)).map (·.1)).Pairwise fun a b =>
    ¬ sameName a b := by
  rw [List.pairwise_map]
  refine (pairwise_ranking htexts hbinaries).imp ?_
  intro a b hlt hsame
  exact SortedMap.compare_ne_of_lt hlt (Rank.of_eq_iff.2 hsame)

/-- The groups are what is under each name, if that is anything. -/
lemma mem_groups_iff {g : String × List Bytes} :
    g ∈ r.groups ↔ r.Under g.1 g.2 ∧ g.2 ≠ [] := by
  rw [groups, List.mem_filter, decide_eq_true_eq, List.mem_map]
  refine and_congr_left fun _ => ?_
  constructor
  · rintro ⟨⟨k, a⟩, ha, rfl⟩
    exact ((mem_ranking_iff htexts hbinaries).1 ha).2
  · intro h
    exact ⟨(Rank.of g.1, g), (mem_ranking_iff htexts hbinaries).2 ⟨rfl, h⟩, rfl⟩

/-- What is received goes into a draft group by group. -/
lemma toEntry_eq : r.toEntry =
    (EntryDraft.build ⟨r.dn, r.groups⟩).mapError fun e => ⟨.other, e.message⟩ := by
  have hpushed : EntryDraft.pushGroups ⟨r.dn, []⟩ (r.ranking.toList.map (·.2)) =
      ⟨r.dn, r.groups⟩ :=
    congrArg₂ EntryDraft.mk (EntryDraft.dn_pushGroups _ _)
      (EntryDraft.groups_pushGroups (distinct_ranking htexts hbinaries) (by simp))
  have hranking : r.ranking = addAllRanked (addAllRanked .empty r.texts) r.binaries := by
    rw [ranking, addAllRanked, List.foldl_append]
    rfl
  rw [← hpushed, EntryDraft.pushGroups, List.foldl_map, hranking]
  rfl

/-- A group without a name is that of a nameless entry. -/
lemma nameless_groups_iff : (∃ g ∈ r.groups, g.1 = "") ↔ r.Nameless := by
  rw [nameless_iff]
  constructor
  · rintro ⟨⟨name, values⟩, hg, rfl⟩
    exact ⟨values, (mem_groups_iff htexts hbinaries).1 hg⟩
  · rintro ⟨values, h⟩
    exact ⟨("", values), (mem_groups_iff htexts hbinaries).2 h, rfl⟩

/-- Attributes with the names and values of the groups are in order. -/
lemma ordered_of_groups {attributes : List Attribute}
    (h : (attributes.map fun a => (a.name, a.values)) = r.groups) : Ordered attributes := by
  have hsorted : r.groups.Pairwise fun a b => compare (Rank.of a.1) (Rank.of b.1) = .lt :=
    (pairwise_ranking htexts hbinaries).filter _
  rw [← h, List.pairwise_map] at hsorted
  exact hsorted.imp fun hlt => Rank.compare_of_eq_lt_iff.1 hlt

end ReceivedEntry

end Received

/-- An entry whose attributes have different names among the texts, and different names among those
of other octets, is taken in one way only.  An empty name with values, or else an empty
distinguished name, is told as an error of its own code; the other entries have one attribute for
each name under which there are values, first the object classes and then the others in the order of
their names, with the spelling and the values that stand under it.  In whatever order the attributes
arrive, it is the same entry or error. -/
theorem toEntry_received (r : ReceivedEntry)
    (htexts : r.texts.Pairwise fun a b => ¬ sameName a.1 b.1)
    (hbinaries : r.binaries.Pairwise fun a b => ¬ sameName a.1 b.1) :
    (match r.toEntry with
      | .error e =>
        e = ⟨.other, ModelError.emptyAttributeName.message⟩ ∧ r.Nameless ∨
          e = ⟨.other, ModelError.emptyDn.message⟩ ∧ ¬ r.Nameless ∧ r.dn = ""
      | .ok e =>
        ¬ r.Nameless ∧ r.dn ≠ "" ∧ e.dn = r.dn ∧ Ordered e.attributes ∧
          ∀ name values, (∃ a ∈ e.attributes, a.name = name ∧ a.values = values) ↔
            r.Under name values ∧ values ≠ []) ∧
      ∀ r' : ReceivedEntry, r'.dn = r.dn → r'.texts.Perm r.texts →
        r'.binaries.Perm r.binaries → r'.toEntry = r.toEntry := by
  refine ⟨?_, ?_⟩
  · rw [ReceivedEntry.toEntry_eq htexts hbinaries]
    have hvalues : ∀ g ∈ r.groups, g.2 ≠ [] := fun g hg =>
      ((ReceivedEntry.mem_groups_iff htexts hbinaries).1 hg).2
    have hnameless := ReceivedEntry.nameless_groups_iff htexts hbinaries
    by_cases hname : r.Nameless
    · rw [EntryDraft.build_of_nameless hvalues (hnameless.2 hname)]
      exact .inl ⟨rfl, hname⟩
    have hnames : ∀ g ∈ r.groups, g.1 ≠ "" := fun g hg h => hname (hnameless.1 ⟨g, hg, h⟩)
    by_cases hdn : r.dn = ""
    · rw [EntryDraft.build_of_empty hdn hvalues hnames]
      exact .inr ⟨rfl, hname, hdn⟩
    have hdistinct : (r.groups.map (·.1)).Pairwise fun a b => ¬ sameName a b :=
      (ReceivedEntry.distinct_ranking htexts hbinaries).sublist (List.filter_sublist.map _)
    obtain ⟨e, hbuild⟩ := EntryDraft.exists_build (d := ⟨r.dn, r.groups⟩) hdn hvalues hnames
      hdistinct
    have hgroups : (e.attributes.map fun a => (a.name, a.values)) = r.groups :=
      (EntryDraft.build_eq_ok_iff.1 hbuild).2
    have hedn : e.dn = r.dn := (EntryDraft.build_eq_ok_iff.1 hbuild).1
    rw [hbuild]
    refine ⟨hname, hdn, hedn, ReceivedEntry.ordered_of_groups htexts hbinaries hgroups, ?_⟩
    intro name values
    rw [← ReceivedEntry.mem_groups_iff htexts hbinaries (g := (name, values)), ← hgroups,
      List.mem_map]
    simp only [Prod.mk.injEq]
  · intro r' hdn htexts' hbinaries'
    have hsymm : ∀ {a b : String × List Bytes}, ¬ sameName a.1 b.1 → ¬ sameName b.1 a.1 :=
      fun {a b} h => by rwa [sameName_comm]
    rw [ReceivedEntry.toEntry_eq htexts hbinaries, ReceivedEntry.toEntry_eq
      (htexts.perm htexts'.symm hsymm) (hbinaries.perm hbinaries'.symm hsymm), hdn,
      ReceivedEntry.groups, ReceivedEntry.groups,
      ReceivedEntry.ranking_of_perm htexts hbinaries htexts' hbinaries']

/-- An attribute of texts without values gives its spelling to the values of its namesake. -/
theorem toEntry_received_sharedName :
    let r : ReceivedEntry := ⟨"cn=x",
      [("sn", [[0x73], [0x62]]), ("CN", []), ("ObjectClass", [[0x74]])],
      [("mail", []), ("cn", [[0xFF], [0x61]])]⟩
    let r' : ReceivedEntry := ⟨"cn=x",
      [("ObjectClass", [[0x74]]), ("CN", []), ("sn", [[0x73], [0x62]])],
      [("cn", [[0xFF], [0x61]]), ("mail", [])]⟩
    r.texts.Pairwise (fun a b => ¬ sameName a.1 b.1) ∧
      r.binaries.Pairwise (fun a b => ¬ sameName a.1 b.1) ∧
      r.toEntry = .ok ⟨"cn=x", [⟨"ObjectClass", [[0x74]], by decide, by decide⟩,
        ⟨"CN", [[0xFF], [0x61]], by decide, by decide⟩,
        ⟨"sn", [[0x73], [0x62]], by decide, by decide⟩], by decide, by decide⟩ ∧
      r'.toEntry = r.toEntry := by
  intro r r'
  have htexts : r.texts.Pairwise fun a b => ¬ sameName a.1 b.1 := by decide
  have hbinaries : r.binaries.Pairwise fun a b => ¬ sameName a.1 b.1 := by decide
  have hsame := (toEntry_received r htexts hbinaries).2 r' rfl (by decide) (by decide)
  exact ⟨htexts, hbinaries, by decide +kernel, hsame⟩

end DirectoryExchange.Ldap

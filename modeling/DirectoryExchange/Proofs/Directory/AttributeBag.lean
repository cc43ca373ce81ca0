import DirectoryExchange.Directory.AttributeBag
import DirectoryExchange.Proofs.Model.Draft
import Mathlib.Data.List.Perm.Subperm

/-!
# Valid bags

The attributes of an entry in a directory make an entry as long as they are valid
(`toEntry_eq_ok_iff`), and every step of a change that succeeds leaves them valid.
-/

namespace DirectoryExchange.AttributeBag

/-- Attributes with names that are all different, each with values. -/
structure Valid (b : AttributeBag) : Prop where
  /-- Every attribute has a name. -/
  named : ∀ p ∈ b.attributes, p.1 ≠ ""
  /-- Every attribute has values. -/
  valued : ∀ p ∈ b.attributes, p.2 ≠ []
  /-- No two attributes have the same name. -/
  distinct : (b.attributes.map (·.1)).Pairwise fun a b => ¬ sameName a b

/-! ### Bags and entries -/

/-- A bag gives the entry whose name and attributes it is given. -/
theorem toEntry_eq_ok_iff {b : AttributeBag} {dn : String} {e : Entry} :
    b.toEntry dn = .ok e ↔ e.dn = dn ∧ ofAttributes e.attributes = b := by
  have hbuild : b.toEntry dn =
      (EntryDraft.build ⟨dn, b.attributes⟩).mapError fun e => ⟨.operationsError, e.message⟩ := rfl
  rw [hbuild, mapError_eq_ok_iff, EntryDraft.build_eq_ok_iff, ofAttributes]
  refine and_congr_right ?_
  intro _
  constructor
  · rintro h
    rw [h]
  · rintro rfl
    rfl

/-- The attributes of an entry are a valid bag. -/
lemma valid_ofAttributes (e : Entry) : (ofAttributes e.attributes).Valid where
  named := by
    intro p hp
    obtain ⟨a, -, rfl⟩ := List.mem_map.1 hp
    exact a.name_ne
  valued := by
    intro p hp
    obtain ⟨a, -, rfl⟩ := List.mem_map.1 hp
    exact a.values_ne
  distinct := by
    rw [ofAttributes, List.map_map]
    exact List.Pairwise.map _ (fun _ _ h => h) e.distinct

/-- A valid bag makes an entry of any name. -/
theorem Valid.exists_toEntry {b : AttributeBag} (h : b.Valid) {dn : String} (hdn : dn ≠ "") :
    ∃ e, b.toEntry dn = .ok e := by
  have hattributes : ∀ pairs : List (String × List Bytes), (∀ p ∈ pairs, p.1 ≠ "") →
      (∀ p ∈ pairs, p.2 ≠ []) →
      ∃ attributes : List Attribute, (attributes.map fun a => (a.name, a.values)) = pairs := by
    intro pairs hnamed hvalued
    induction pairs with
    | nil => exact ⟨[], rfl⟩
    | cons p pairs ih =>
      obtain ⟨hp, hnamed⟩ := List.forall_mem_cons.1 hnamed
      obtain ⟨hp', hvalued⟩ := List.forall_mem_cons.1 hvalued
      obtain ⟨attributes, rfl⟩ := ih hnamed hvalued
      exact ⟨⟨p.1, p.2, hp, hp'⟩ :: attributes, rfl⟩
  obtain ⟨attributes, hb⟩ := hattributes b.attributes h.named h.valued
  have hdistinct : attributes.Pairwise fun a b => ¬ sameName a.name b.name := by
    have hnames := h.distinct
    rw [← hb, List.map_map, List.pairwise_map] at hnames
    exact hnames
  refine ⟨⟨dn, attributes, hdn, hdistinct⟩, toEntry_eq_ok_iff.2 ⟨rfl, ?_⟩⟩
  rw [ofAttributes, hb]

/-! ### Putting and removing -/

/-- Where the attribute of a name stands in the bag, if there is one. -/
lemma get?_cases (b : AttributeBag) (name : String) :
    (∃ before spelling held behind, b.attributes = before ++ (spelling, held) :: behind ∧
        sameName spelling name ∧ (∀ p ∈ before, ¬ sameName p.1 name) ∧ b.get? name = some held) ∨
      (∀ p ∈ b.attributes, ¬ sameName p.1 name) ∧ b.get? name = none := by
  have hget : b.get? name = (b.attributes.find? fun p => sameName p.1 name).map (·.2) := rfl
  rw [hget]
  cases hfind : b.attributes.find? fun p => sameName p.1 name with
  | none => exact .inr ⟨List.find?_eq_none.1 hfind, rfl⟩
  | some found =>
    obtain ⟨hname, before, behind, hpairs, hbefore⟩ := List.find?_eq_some_iff_append.1 hfind
    refine .inl ⟨before, found.1, found.2, behind, hpairs, hname, ?_, rfl⟩
    exact fun p hp => Bool.eq_false_iff.1 ((Bool.not_eq_true' _).mp (hbefore p hp))

/-- A name that stands in the bag is given its values in its place. -/
lemma putInto_append {name spelling : String} {before : List (String × List Bytes)}
    (hbefore : ∀ p ∈ before, ¬ sameName p.1 name) (hname : sameName spelling name)
    (held values : List Bytes) (behind : List (String × List Bytes)) :
    putInto name values (before ++ (spelling, held) :: behind) =
      before ++ (spelling, values) :: behind := by
  induction before with
  | nil => rw [List.nil_append, putInto, if_pos hname, List.nil_append]
  | cons p before ih =>
    obtain ⟨hp, hbefore⟩ := List.forall_mem_cons.1 hbefore
    rw [List.cons_append, putInto, if_neg hp, ih hbefore, List.cons_append]

/-- A name that does not stand in the bag comes last. -/
lemma putInto_of_new {name : String} {pairs : List (String × List Bytes)}
    (h : ∀ p ∈ pairs, ¬ sameName p.1 name) (values : List Bytes) :
    putInto name values pairs = pairs ++ [(name, values)] := by
  induction pairs with
  | nil => rfl
  | cons p pairs ih =>
    obtain ⟨hp, hpairs⟩ := List.forall_mem_cons.1 h
    rw [putInto, if_neg hp, ih hpairs, List.cons_append]

/-- A name that stands in the bag is taken out. -/
lemma eraseP_append {name spelling : String} {before : List (String × List Bytes)}
    (hbefore : ∀ p ∈ before, ¬ sameName p.1 name) (hname : sameName spelling name)
    (held : List Bytes) (behind : List (String × List Bytes)) :
    (before ++ (spelling, held) :: behind).eraseP (fun (spelling, _) => sameName spelling name) =
      before ++ behind := by
  rw [List.eraseP_append_right _ hbefore, List.eraseP_cons, hname, cond_true]

/-- An attribute that stands in a valid bag has no namesake further behind. -/
lemma Valid.not_sameName_behind {b : AttributeBag} (h : b.Valid) {spelling name : String}
    {held : List Bytes} {before behind : List (String × List Bytes)}
    (hpairs : b.attributes = before ++ (spelling, held) :: behind)
    (hname : sameName spelling name) : ∀ p ∈ behind, ¬ sameName p.1 name := by
  have hdistinct := h.distinct
  rw [hpairs, List.map_append, List.map_cons] at hdistinct
  have hfirst := (List.pairwise_cons.1 (List.pairwise_append.1 hdistinct).2.1).1
  intro p hp hsame
  rw [sameName_comm] at hsame
  exact hfirst p.1 (List.mem_map_of_mem hp) (sameName_trans hname hsame)

/-- A bag stays valid if a named attribute gets values. -/
lemma Valid.put {b : AttributeBag} (h : b.Valid) {name : String} (hname : name ≠ "")
    {values : List Bytes} (hvalues : values ≠ []) : (b.put name values).Valid := by
  obtain ⟨hnamed, hvalued, hdistinct⟩ := h
  -- the values replace those of an attribute of the name, or make a new last one
  rcases b.get?_cases name with
    ⟨before, spelling, held, behind, hpairs, hsame, hbefore, -⟩ | ⟨hnone, -⟩
  · have hput := putInto_append hbefore hsame held values behind
    rw [← hpairs] at hput
    rw [hpairs] at hnamed hvalued hdistinct
    simp only [List.forall_mem_append, List.forall_mem_cons] at hnamed hvalued
    refine ⟨?_, ?_, ?_⟩
    · rw [AttributeBag.put, hput]
      simpa only [List.forall_mem_append, List.forall_mem_cons] using hnamed
    · rw [AttributeBag.put, hput]
      simp only [List.forall_mem_append, List.forall_mem_cons]
      exact ⟨hvalued.1, hvalues, hvalued.2.2⟩
    · rw [AttributeBag.put, hput]
      simpa using hdistinct
  · have hput := putInto_of_new hnone values
    refine ⟨?_, ?_, ?_⟩
    · rw [AttributeBag.put, hput]
      exact List.forall_mem_append.2 ⟨hnamed, by simpa using hname⟩
    · rw [AttributeBag.put, hput]
      exact List.forall_mem_append.2 ⟨hvalued, by simpa using hvalues⟩
    · rw [AttributeBag.put, hput, List.map_append, List.pairwise_append]
      refine ⟨hdistinct, List.pairwise_singleton _ _, ?_⟩
      intro spelling hspelling other hother
      obtain ⟨p, hp, rfl⟩ := List.mem_map.1 hspelling
      obtain rfl := List.mem_singleton.1 hother
      exact hnone p hp

lemma Valid.remove {b : AttributeBag} (h : b.Valid) (name : String) : (b.remove name).Valid := by
  have hsub : (b.remove name).attributes.Sublist b.attributes := List.eraseP_sublist
  exact ⟨fun p hp => h.named p (hsub.subset hp), fun p hp => h.valued p (hsub.subset hp),
    h.distinct.sublist (hsub.map _)⟩

/-! ### The steps of changes -/

/-- Values pushed onto others are not none, unless there were none of either. -/
lemma pushDistinct_ne_nil {held values : List Bytes} (h : held ≠ [] ∨ values ≠ []) :
    (pushDistinct held values).2 ≠ [] := by
  induction values generalizing held with
  | nil => simpa [pushDistinct] using h
  | cons value values ih =>
    unfold pushDistinct
    split
    · next hmem => exact List.ne_nil_of_mem hmem
    · exact ih (.inl (by simp))

/-- What is left of a bag when values have been added is valid, also if one was there already. -/
lemma Valid.add {b : AttributeBag} (h : b.Valid) {name : String} (hname : name ≠ "")
    {values : List Bytes} (hvalues : values ≠ []) : (b.add name values).2.Valid := by
  rw [AttributeBag.add, if_neg hvalues]
  exact h.put hname (pushDistinct_ne_nil (.inr hvalues))

/-- A bag from which values could be deleted is valid. -/
lemma Valid.delete {b b' : AttributeBag} (h : b.Valid) {name : String} (hname : name ≠ "")
    {values : List Bytes} (hdelete : b.delete name values = (.ok (), b')) : b'.Valid := by
  unfold AttributeBag.delete at hdelete
  split at hdelete
  · simp at hdelete
  · split at hdelete
    · obtain ⟨-, rfl⟩ := Prod.mk.inj hdelete
      exact h.remove name
    · split at hdelete
      · obtain ⟨-, rfl⟩ := Prod.mk.inj hdelete
        exact h.remove name
      · next left hne _ =>
        obtain ⟨-, rfl⟩ := Prod.mk.inj hdelete
        exact h.put hname hne
      · simp at hdelete

/-- Values that are held, each often enough, can all be taken away. -/
lemma takeAway_of_subperm {values held : List Bytes} (h : values.Subperm held) :
    (takeAway held values).1 = true := by
  induction values generalizing held with
  | nil => rfl
  | cons value values ih =>
    have hmem : value ∈ held := h.subset List.mem_cons_self
    have hrest := h.erase value
    rw [List.erase_cons_head] at hrest
    rw [takeAway, if_pos hmem]
    exact ih hrest

/-- If the values to be taken away are those of a kind, the others are left in their order. -/
lemma takeAway_filter (p : Bytes → Bool) {before : List Bytes} (hbefore : ∀ v ∈ before, ¬ p v)
    (values : List Bytes) :
    takeAway (before ++ values) (values.filter p) =
      (true, before ++ values.filter fun v => !p v) := by
  induction values generalizing before with
  | nil => rfl
  | cons v values ih =>
    by_cases hv : p v
    · have hnot : v ∉ before := fun hmem => hbefore v hmem hv
      rw [List.filter_cons_of_pos hv, takeAway, if_pos (by simp), List.erase_append_right _ hnot,
        List.erase_cons_head, ih hbefore, List.filter_cons_of_neg (by simpa using hv)]
    · have hbefore' : ∀ w ∈ before ++ [v], ¬ p w :=
        List.forall_mem_append.2 ⟨hbefore, by simpa using hv⟩
      rw [List.filter_cons_of_neg hv, List.append_cons, ih hbefore', List.append_assoc,
        List.singleton_append, List.filter_cons_of_pos (by simpa using hv)]

/-- If the values of a kind are deleted, the attribute keeps the others.  It goes if there are no
others, but also if there are none of that kind. -/
lemma attributes_delete_filter {b : AttributeBag} {spelling name : String} {held : List Bytes}
    {before behind : List (String × List Bytes)}
    (hpairs : b.attributes = before ++ (spelling, held) :: behind)
    (hbefore : ∀ p ∈ before, ¬ sameName p.1 name) (hname : sameName spelling name)
    (hget : b.get? name = some held) (p : Bytes → Bool) :
    (b.delete name (held.filter p)).2.attributes =
      if held.filter p = [] ∨ (held.filter fun v => !p v) = [] then before ++ behind
      else before ++ (spelling, held.filter fun v => !p v) :: behind := by
  have hremoved : (b.remove name).attributes = before ++ behind := by
    rw [remove, hpairs, eraseP_append hbefore hname]
  have hput : ∀ values, (b.put name values).attributes =
      before ++ (spelling, values) :: behind := by
    intro values
    rw [put, hpairs, putInto_append hbefore hname]
  have htaken := takeAway_filter p (fun _ h => absurd h List.not_mem_nil) held
  rw [List.nil_append, List.nil_append] at htaken
  rw [delete, hget]
  by_cases hnone : held.filter p = []
  · rw [if_pos (.inl hnone), ← hremoved]
    simp [hnone]
  · by_cases hall : (held.filter fun v => !p v) = []
    · rw [if_pos (.inr hall), ← hremoved]
      simp only [htaken, hall, if_neg hnone]
    · rw [if_neg (by simp only [hnone, hall, or_self, not_false_eq_true]), ← hput]
      simp only [htaken, if_neg hnone]

/-- Values that are held can be deleted. -/
lemma delete_filter {b : AttributeBag} {name : String} {held : List Bytes}
    (hget : b.get? name = some held) (p : Bytes → Bool) :
    ∃ b', b.delete name (held.filter p) = (.ok (), b') := by
  have hall := takeAway_of_subperm (List.filter_sublist (p := p) (l := held)).subperm
  rw [AttributeBag.delete, hget]
  simp only
  split
  · exact ⟨_, rfl⟩
  · split
    · exact ⟨_, rfl⟩
    · exact ⟨_, rfl⟩
    · next hfalse =>
      rw [hfalse] at hall
      exact absurd hall Bool.false_ne_true

/-- A bag stays valid if the values of a named attribute are replaced, by none as well. -/
lemma Valid.replace {b : AttributeBag} (h : b.Valid) {name : String} (hname : name ≠ "")
    (values : List Bytes) : (b.replace name values).Valid := by
  unfold AttributeBag.replace
  split
  · exact h.remove name
  · next hvalues => exact h.put hname hvalues

/-- Modifications that succeed leave a valid bag. -/
theorem Valid.applyAll {b b' : AttributeBag} (h : b.Valid) {steps : List Modification}
    (happly : b.applyAll steps = .ok b') : b'.Valid := by
  induction steps generalizing b with
  | nil =>
    obtain rfl := Except.ok.inj happly
    exact h
  | cons m steps ih =>
    unfold AttributeBag.applyAll at happly
    split at happly
    · next u c hstep =>
      have hc : c.Valid := by
        unfold AttributeBag.apply at hstep
        split at hstep
        · next hkind =>
          have hadd := h.add m.name_ne (m.add_values_ne hkind)
          rw [hstep] at hadd
          exact hadd
        · exact h.delete m.name_ne hstep
        · obtain ⟨-, rfl⟩ := Prod.mk.inj hstep
          exact h.replace m.name_ne m.values
      exact ih hc happly
    · simp at happly

end DirectoryExchange.AttributeBag

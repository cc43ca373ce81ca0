import DirectoryExchange.Directory.Change
import DirectoryExchange.Proofs.Directory.Rename

/-!
# The values of relative names

The values of a relative name are taken from the attributes pair by pair.  An attribute that does
not hold what a pair gives for it goes with all its values.  So a rename that takes away the values
of the old name leaves those attributes that hold all that it gives, without it
(`attributes_renamedAttributes`).  That is the attributes without the values of the name exactly if
those that go have no others (`withoutValues_holding_eq_iff`).
-/

namespace DirectoryExchange.Directory

/-! ### Attributes without values and with values -/

/-- The values that a relative name gives for the attribute of that name. -/
def valuesFor (rdn : Dn.Rdn) (name : String) : List Bytes :=
  (rdn.filter fun ava => sameName name ava.type).map (·.value)

/-- The values that are none of the given ones, up to the case of ASCII letters. -/
def valuesBeside (given values : List Bytes) : List Bytes :=
  values.filter fun v => !Filter.hasValue given v

/-- The attribute without the given values, if it has others. -/
def without? (given : List Bytes) (p : String × List Bytes) : Option (String × List Bytes) :=
  if valuesBeside given p.2 = [] then none else some (p.1, valuesBeside given p.2)

/-- The attributes without the values that a relative name gives for them.  One that has no others
does not stay. -/
def withoutValues (rdn : Dn.Rdn) (attributes : List (String × List Bytes)) :
    List (String × List Bytes) :=
  attributes.filterMap fun p => without? (valuesFor rdn p.1) p

/-- The attributes with the value of a pair, if they do not have it up to the case of ASCII letters:
behind the other values of its type, or as a new attribute behind the others. -/
def withValue (attributes : List (String × List Bytes)) (ava : Dn.Ava) :
    List (String × List Bytes) :=
  match attributes with
  | [] => [(ava.type, [ava.value])]
  | (name, values) :: rest =>
    if sameName name ava.type then
      if Filter.hasValue values ava.value then (name, values) :: rest
      else (name, values ++ [ava.value]) :: rest
    else (name, values) :: withValue rest ava

/-- The attributes with the values of a relative name, one after the other. -/
def withValues (rdn : Dn.Rdn) (attributes : List (String × List Bytes)) :
    List (String × List Bytes) :=
  rdn.foldl withValue attributes

/-- Whether each of the given values is held, and none is given twice, up to the case of ASCII
letters. -/
def AllHeld (given values : List Bytes) : Prop :=
  (∀ v ∈ given, Filter.hasValue values v) ∧ given.Pairwise fun v w => ¬ v.sameIgnoringCase w

instance (given values : List Bytes) : Decidable (AllHeld given values) :=
  inferInstanceAs (Decidable (_ ∧ _))

/-- The attributes that hold all that a relative name gives for them. -/
def holding (rdn : Dn.Rdn) (attributes : List (String × List Bytes)) :
    List (String × List Bytes) :=
  attributes.filter fun p => AllHeld (valuesFor rdn p.1) p.2

/-- The relative name the values of which go with a rename: the old one, if they are to go. -/
def goneRdn (rename : Rename) (old : Dn.Rdn) : Dn.Rdn := if rename.deleteOldRdn then old else []

/-! ### Adding the values of a name -/

section Adding

variable {b : AttributeBag} {ava : Dn.Ava}

lemma hasValue_of_mem {values : List Bytes} {v : Bytes} (h : v ∈ values) :
    Filter.hasValue values v = true :=
  List.any_eq_true.2 ⟨v, h, by simp⟩

/-- The value of a pair is put behind those of the attribute with its type, unless it is there. -/
lemma withValue_append {before behind : List (String × List Bytes)} {name : String}
    {held : List Bytes} (hbefore : ∀ p ∈ before, ¬ sameName p.1 ava.type)
    (hname : sameName name ava.type) :
    withValue (before ++ (name, held) :: behind) ava =
      if Filter.hasValue held ava.value then before ++ (name, held) :: behind
      else before ++ (name, held ++ [ava.value]) :: behind := by
  induction before with
  | nil => rw [List.nil_append, withValue, if_pos hname]; rfl
  | cons p before ih =>
    obtain ⟨hp, hbefore⟩ := List.forall_mem_cons.1 hbefore
    rw [List.cons_append, withValue, if_neg hp, ih hbefore]
    split <;> rfl

/-- Where no attribute has the type of a pair, the pair makes a new last one. -/
lemma withValue_of_new {attributes : List (String × List Bytes)}
    (h : ∀ p ∈ attributes, ¬ sameName p.1 ava.type) :
    withValue attributes ava = attributes ++ [(ava.type, [ava.value])] := by
  induction attributes with
  | nil => rfl
  | cons p rest ih =>
    obtain ⟨hp, hrest⟩ := List.forall_mem_cons.1 h
    rw [withValue, if_neg hp, ih hrest, List.cons_append]

/-- A value is added if the attribute does not have it. -/
lemma attributes_addRdnValue (b : AttributeBag) (ava : Dn.Ava) :
    (if (b.get? ava.type).any fun values => Filter.hasValue values ava.value then b
      else (b.add ava.type [ava.value]).2).attributes = withValue b.attributes ava := by
  rcases b.get?_cases ava.type with
    ⟨before, name, held, behind, hpairs, hname, hbefore, hget⟩ | ⟨hnone, hget⟩
  · rw [hget, Option.any_some, hpairs, withValue_append hbefore hname]
    split
    · exact hpairs
    · next hnot =>
      have hnew : ava.value ∉ held := fun hmem => hnot (hasValue_of_mem hmem)
      rw [AttributeBag.add, if_neg (List.cons_ne_nil _ _), hget, Option.getD_some,
        AttributeBag.pushDistinct, if_neg hnew]
      simp only [AttributeBag.pushDistinct, AttributeBag.put, hpairs,
        AttributeBag.putInto_append hbefore hname]
  · rw [hget, Option.any_none, if_neg Bool.false_ne_true, withValue_of_new hnone,
      AttributeBag.add, if_neg (List.cons_ne_nil _ _), hget]
    exact AttributeBag.putInto_of_new hnone [ava.value]

/-- The values of a name are added one after the other. -/
lemma attributes_addRdnValues (b : AttributeBag) (rdn : Dn.Rdn) :
    (addRdnValues b rdn).attributes = withValues rdn b.attributes := by
  rw [addRdnValues, withValues]
  induction rdn generalizing b with
  | nil => rfl
  | cons ava rdn ih => rw [List.foldl_cons, List.foldl_cons, ih, attributes_addRdnValue]

end Adding

/-! ### Removing the values of a name -/

section Removing

variable {b : AttributeBag} {ava : Dn.Ava} {rdn : Dn.Rdn} {given values : List Bytes} {v : Bytes}

lemma valuesFor_nil (name : String) : valuesFor [] name = [] := rfl

lemma valuesFor_cons_of_pos {name : String} (h : sameName name ava.type) :
    valuesFor (ava :: rdn) name = ava.value :: valuesFor rdn name := by
  rw [valuesFor, List.filter_cons, if_pos h, List.map_cons, valuesFor]

lemma valuesFor_cons_of_neg {name : String} (h : ¬ sameName name ava.type) :
    valuesFor (ava :: rdn) name = valuesFor rdn name := by
  rw [valuesFor, List.filter_cons, if_neg h, valuesFor]

lemma hasValue_singleton {w : Bytes} : Filter.hasValue [v] w = v.sameIgnoringCase w := by
  rw [Filter.hasValue, List.any_cons, List.any_nil, Bool.or_false]

/-- Values are taken away one after the other. -/
lemma valuesBeside_cons (given values : List Bytes) (v : Bytes) :
    valuesBeside (v :: given) values = valuesBeside given (valuesBeside [v] values) := by
  rw [valuesBeside, valuesBeside, valuesBeside, List.filter_filter]
  refine List.filter_congr fun w _ => ?_
  rw [hasValue_singleton, Filter.hasValue, List.any_cons, Bool.not_or, Bool.and_comm]
  rfl

/-- Values are held one after the other. -/
lemma allHeld_cons_iff : AllHeld (v :: given) values ↔
    Filter.hasValue values v ∧ AllHeld given (valuesBeside [v] values) := by
  have hkept : ∀ w, Filter.hasValue (valuesBeside [v] values) w ↔
      Filter.hasValue values w ∧ ¬ v.sameIgnoringCase w := by
    intro w
    simp only [Filter.hasValue, valuesBeside, List.any_eq_true, List.mem_filter, List.any_cons,
      List.any_nil, Bool.or_false, Bool.not_eq_true', Bool.eq_false_iff, ne_eq,
      Bytes.sameIgnoringCase_iff]
    constructor
    · rintro ⟨u, ⟨hu, hother⟩, hsame⟩
      exact ⟨⟨u, hu, hsame⟩, hsame ▸ hother⟩
    · rintro ⟨⟨u, hu, hsame⟩, hother⟩
      exact ⟨u, ⟨hu, hsame ▸ hother⟩, hsame⟩
  simp only [AllHeld, List.forall_mem_cons, List.pairwise_cons, hkept]
  constructor
  · rintro ⟨⟨hv, hgiven⟩, hother, hpairwise⟩
    exact ⟨hv, fun w hw => ⟨hgiven w hw, hother w hw⟩, hpairwise⟩
  · rintro ⟨hv, hgiven, hpairwise⟩
    exact ⟨⟨hv, fun w hw => (hgiven w hw).1⟩, fun w hw => (hgiven w hw).2, hpairwise⟩

/-- What is left of an attribute when the given values are taken from it one after the other:
nothing if one of them is not there any more when its turn comes. -/
def remainder? (given : List Bytes) (p : String × List Bytes) : Option (String × List Bytes) :=
  if AllHeld given p.2 then without? given p else none

lemma remainder?_nil {p : String × List Bytes} (h : p.2 ≠ []) : remainder? [] p = some p := by
  have hheld : AllHeld [] p.2 := ⟨fun _ h => absurd h List.not_mem_nil, .nil⟩
  have hall : valuesBeside [] p.2 = p.2 := List.filter_true _
  rw [remainder?, if_pos hheld, without?, hall, if_neg h]

/-- What remains of an attribute keeps its name. -/
lemma fst_of_remainder? {p left : String × List Bytes} (h : remainder? given p = some left) :
    left.1 = p.1 := by
  unfold remainder? without? at h
  split at h
  · split at h
    · cases h
    · rw [← Option.some.inj h]
  · cases h

/-- What remains behind several values is what remains behind the first and then the others. -/
lemma remainder?_cons (v : Bytes) (given : List Bytes) (p : String × List Bytes) :
    remainder? (v :: given) p = (remainder? [v] p).bind (remainder? given) := by
  obtain ⟨name, values⟩ := p
  have hone : AllHeld [v] values ↔ Filter.hasValue values v := by simp [AllHeld]
  simp only [remainder?, without?, allHeld_cons_iff, valuesBeside_cons given, hone]
  by_cases hv : Filter.hasValue values v
  · by_cases hleft : valuesBeside [v] values = []
    · have hnone : valuesBeside given [] = [] := rfl
      simp [hv, hleft, hnone]
    · simp [remainder?, without?, hv, hleft]
  · simp [hv]

/-- Attributes for which nothing is given keep their values. -/
lemma filterMap_remainder?_eq_self {attributes : List (String × List Bytes)}
    (hnone : ∀ p ∈ attributes, valuesFor rdn p.1 = []) (hvalued : ∀ p ∈ attributes, p.2 ≠ []) :
    attributes.filterMap (fun p => remainder? (valuesFor rdn p.1) p) = attributes := by
  have hself : ∀ p ∈ attributes, remainder? (valuesFor rdn p.1) p = some p := by
    intro p hp
    rw [hnone p hp]
    exact remainder?_nil (hvalued p hp)
  rw [List.filterMap_congr hself, List.filterMap_some]

/-- Beside one value there are those that differ from it in more than letter case. -/
lemma valuesBeside_singleton (v : Bytes) (values : List Bytes) :
    valuesBeside [v] values = values.filter fun w => !w.sameIgnoringCase v := by
  refine List.filter_congr fun w _ => ?_
  rw [hasValue_singleton, Bytes.sameIgnoringCase, Bytes.sameIgnoringCase, Bool.beq_comm]

/-- An attribute goes if it does not hold the value, or holds no other. -/
lemma remainder?_singleton (v : Bytes) (name : String) (held : List Bytes) :
    remainder? [v] (name, held) =
      if held.filter (fun w => w.sameIgnoringCase v) = [] ∨
          (held.filter fun w => !w.sameIgnoringCase v) = [] then none
      else some (name, held.filter fun w => !w.sameIgnoringCase v) := by
  have hheld : AllHeld [v] held ↔ held.filter (fun w => w.sameIgnoringCase v) ≠ [] := by
    simp [AllHeld, Filter.hasValue, List.filter_eq_nil_iff]
  rw [remainder?, without?, valuesBeside_singleton]
  simp only [hheld, ite_not, ite_or]

/-- The values of one pair are taken from the attribute of its type.  If it has none of them, the
list of values to be deleted is empty, and the whole attribute goes. -/
lemma attributes_delete (h : b.Valid) {held : List Bytes} (hget : b.get? ava.type = some held) :
    (b.delete ava.type (held.filter fun v => v.sameIgnoringCase ava.value)).2.attributes =
      b.attributes.filterMap fun p => remainder? (valuesFor [ava] p.1) p := by
  rcases b.get?_cases ava.type with
    ⟨before, name, held', behind, hpairs, hname, hbefore, hget'⟩ | ⟨-, hnone⟩
  · obtain rfl := Option.some.inj (hget.symm.trans hget')
    have hbehind := h.not_sameName_behind hpairs hname
    have hvalued := h.valued
    rw [hpairs, List.forall_mem_append, List.forall_mem_cons] at hvalued
    rw [AttributeBag.attributes_delete_filter hpairs hbefore hname hget, hpairs,
      List.filterMap_append, List.filterMap_cons,
      filterMap_remainder?_eq_self (fun p hp => valuesFor_cons_of_neg (hbefore p hp)) hvalued.1,
      filterMap_remainder?_eq_self (fun p hp => valuesFor_cons_of_neg (hbehind p hp)) hvalued.2.2,
      valuesFor_cons_of_pos hname, valuesFor_nil, remainder?_singleton]
    split <;> rfl
  · rw [hnone] at hget
    cases hget

/-- The values of a relative name are taken from every attribute, except that one goes with all its
values if it does not hold all that the name gives for it. -/
lemma attributes_removeRdnValues (hrdn : ∀ ava ∈ rdn, ava.type ≠ "") (h : b.Valid) :
    (removeRdnValues b rdn).attributes =
      b.attributes.filterMap fun p => remainder? (valuesFor rdn p.1) p := by
  -- the pairs are removed one by one, and the bag stays valid between them
  induction rdn generalizing b with
  | nil => exact (filterMap_remainder?_eq_self (fun _ _ => rfl) h.valued).symm
  | cons ava rdn ih =>
    obtain ⟨hava, hrest⟩ := List.forall_mem_cons.1 hrdn
    have hsplit : removeRdnValues b (ava :: rdn) =
        removeRdnValues (removeRdnValues b [ava]) rdn := rfl
    have hone : (removeRdnValues b [ava]).attributes =
        b.attributes.filterMap fun p => remainder? (valuesFor [ava] p.1) p := by
      rw [removeRdnValues, List.foldl_cons, List.foldl_nil]
      split
      · next hnone =>
        rcases b.get?_cases ava.type with ⟨_, _, _, _, -, -, -, hget⟩ | ⟨hother, -⟩
        · rw [hget] at hnone
          cases hnone
        · exact (filterMap_remainder?_eq_self
            (fun p hp => valuesFor_cons_of_neg (hother p hp)) h.valued).symm
      · next held hget => exact attributes_delete h hget
    rw [hsplit, ih hrest (valid_removeRdnValues (List.forall_mem_singleton.2 hava) h), hone,
      List.filterMap_filterMap]
    refine List.filterMap_congr fun p hp => ?_
    by_cases hname : sameName p.1 ava.type
    · rw [valuesFor_cons_of_pos hname, valuesFor_cons_of_pos hname, valuesFor_nil,
        remainder?_cons _ (valuesFor rdn p.1)]
      cases hleft : remainder? [ava.value] p with
      | none => rfl
      | some left => rw [Option.bind_some, Option.bind_some, fst_of_remainder? hleft]
    · rw [valuesFor_cons_of_neg hname, valuesFor_cons_of_neg hname, valuesFor_nil,
        remainder?_nil (h.valued p hp), Option.bind_some]

/-- To take the values of a name away is to leave those attributes that hold all of them, without
them. -/
lemma filterMap_remainder? (rdn : Dn.Rdn) (attributes : List (String × List Bytes)) :
    attributes.filterMap (fun p => remainder? (valuesFor rdn p.1) p) =
      withoutValues rdn (holding rdn attributes) := by
  rw [withoutValues, holding, List.filterMap_filter]
  simp only [remainder?, decide_eq_true_eq]

end Removing

/-! ### What is lost with the values -/

section Lost

variable {rdn gone : Dn.Rdn} {attributes : List (String × List Bytes)}

/-- A filter in front of a partial map is of no effect if it drops nothing that has an image. -/
lemma filterMap_filter_eq_iff {α β : Type*} {keep : α → Bool} {f : α → Option β} {l : List α} :
    (l.filter keep).filterMap f = l.filterMap f ↔ ∀ x ∈ l, keep x = true ∨ f x = none := by
  induction l with
  | nil => simp
  | cons x l ih =>
    rw [List.forall_mem_cons, ← ih, List.filter_cons, List.filterMap_cons]
    by_cases hx : keep x = true
    · rw [if_pos hx, List.filterMap_cons]
      cases f x <;> simp [hx]
    · rw [if_neg hx]
      cases f x with
      | none => simp
      | some y =>
        have hlength := ((List.filter_sublist (p := keep) (l := l)).filterMap f).length_le
        refine iff_of_false (fun heq => ?_) (by simp [hx])
        rw [heq, List.length_cons] at hlength
        omega

/-- Where the values of a name do not count, nothing is lost with the attributes that do not hold
all that is given for them exactly if these have values of that name only. -/
lemma withoutValues_holding_eq_iff :
    withoutValues rdn (holding gone attributes) = withoutValues rdn attributes ↔
      ∀ p ∈ attributes, AllHeld (valuesFor gone p.1) p.2 ∨
        valuesBeside (valuesFor rdn p.1) p.2 = [] := by
  rw [withoutValues, withoutValues, holding, filterMap_filter_eq_iff]
  simp only [decide_eq_true_eq, without?, ite_eq_left_iff, reduceCtorEq, imp_false, not_not]

/-- The values that a name gives are those of its pairs of that type. -/
lemma mem_valuesFor {name : String} {v : Bytes} :
    v ∈ valuesFor rdn name ↔ ∃ ava ∈ rdn, sameName name ava.type ∧ ava.value = v := by
  simp only [valuesFor, List.mem_map, List.mem_filter, and_assoc]

/-- To take some of the values away first makes no difference. -/
lemma valuesBeside_valuesBeside {given given' : List Bytes} (h : given' ⊆ given)
    (values : List Bytes) : valuesBeside given (valuesBeside given' values) =
      valuesBeside given values := by
  rw [valuesBeside, valuesBeside, valuesBeside, List.filter_filter]
  refine List.filter_congr fun v _ => ?_
  have hmono : Filter.hasValue given' v = true → Filter.hasValue given v = true := by
    simp only [Filter.hasValue, List.any_eq_true]
    rintro ⟨w, hw, hsame⟩
    exact ⟨w, h hw, hsame⟩
  cases hv' : Filter.hasValue given' v
  · rw [Bool.not_false, Bool.and_true]
  · rw [hmono hv']
    rfl

/-- To take away some of the values before all of them makes no difference. -/
lemma withoutValues_withoutValues (h : gone ⊆ rdn) (attributes : List (String × List Bytes)) :
    withoutValues rdn (withoutValues gone attributes) = withoutValues rdn attributes := by
  rw [withoutValues, withoutValues, withoutValues, List.filterMap_filterMap]
  refine List.filterMap_congr fun p _ => ?_
  obtain ⟨name, values⟩ := p
  have hgiven : valuesFor gone name ⊆ valuesFor rdn name := by
    intro v hv
    rw [mem_valuesFor] at hv ⊢
    obtain ⟨ava, hava, hname⟩ := hv
    exact ⟨ava, h hava, hname⟩
  have hall := valuesBeside_valuesBeside hgiven values
  simp only [without?]
  split
  · next hnone =>
    rw [hnone] at hall
    rw [← hall]
    rfl
  · rw [Option.bind_some, hall]

/-- Values that are taken away need not be put in before. -/
lemma withoutValues_withValue {ava : Dn.Ava} (h : ava ∈ rdn)
    (attributes : List (String × List Bytes)) :
    withoutValues rdn (withValue attributes ava) = withoutValues rdn attributes := by
  have hgiven : ∀ name, sameName name ava.type →
      Filter.hasValue (valuesFor rdn name) ava.value = true :=
    fun name hname => hasValue_of_mem (mem_valuesFor.2 ⟨ava, h, hname, rfl⟩)
  induction attributes with
  | nil =>
    have hnone : valuesBeside (valuesFor rdn ava.type) [ava.value] = [] := by
      simp [valuesBeside, hgiven ava.type (sameName_refl _)]
    simp [withValue, withoutValues, without?, hnone]
  | cons p rest ih =>
    obtain ⟨name, values⟩ := p
    rw [withValue]
    split
    · next hname =>
      split
      · rfl
      · have hsame : valuesBeside (valuesFor rdn name) (values ++ [ava.value]) =
            valuesBeside (valuesFor rdn name) values := by
          simp [valuesBeside, List.filter_append, hgiven name hname]
        rw [withoutValues, withoutValues, List.filterMap_cons, List.filterMap_cons, without?,
          without?, hsame]
    · rw [withoutValues, withoutValues, List.filterMap_cons, List.filterMap_cons]
      rw [withoutValues, withoutValues] at ih
      rw [ih]

/-- Values that are given and then taken away leave nothing behind. -/
lemma withoutValues_withValues {new : Dn.Rdn} (h : new ⊆ rdn)
    (attributes : List (String × List Bytes)) :
    withoutValues rdn (withValues new attributes) = withoutValues rdn attributes := by
  rw [withValues]
  induction new generalizing attributes with
  | nil => rfl
  | cons ava new ih =>
    rw [List.foldl_cons, ih (List.subset_of_cons_subset h),
      withoutValues_withValue (h List.mem_cons_self)]

end Lost

/-! ### Renaming -/

section Renaming

variable {b : AttributeBag} {rename : Rename} {old new : Dn.Rdn}

/-- The attributes of a renamed entry are those that hold all that the name gives which is to go,
without what it gives, and with what the new name gives. -/
theorem attributes_renamedAttributes (hold : ∀ ava ∈ old, ava.type ≠ "") (h : b.Valid) :
    (renamedAttributes b rename old new).attributes =
      withValues new (withoutValues (goneRdn rename old)
        (holding (goneRdn rename old) b.attributes)) := by
  rw [renamedAttributes, attributes_addRdnValues, ← filterMap_remainder?, goneRdn]
  split
  · rw [attributes_removeRdnValues hold h]
  · rw [filterMap_remainder?_eq_self (fun _ _ => rfl) h.valued]

/-- Apart from the values of both names the attributes are the same exactly if every attribute
holds all that the name gives which is to go, or has no other values than those of both. -/
theorem withoutValues_renamedAttributes_iff (hold : ∀ ava ∈ old, ava.type ≠ "") (h : b.Valid) :
    withoutValues (old ++ new) (renamedAttributes b rename old new).attributes =
        withoutValues (old ++ new) b.attributes ↔
      ∀ p ∈ b.attributes, AllHeld (valuesFor (goneRdn rename old) p.1) p.2 ∨
        valuesBeside (valuesFor (old ++ new) p.1) p.2 = [] := by
  have hgone : goneRdn rename old ⊆ old ++ new := by
    rw [goneRdn]
    split
    · exact List.subset_append_left old new
    · exact List.nil_subset _
  rw [attributes_renamedAttributes hold h,
    withoutValues_withValues (List.subset_append_right old new),
    withoutValues_withoutValues hgone, withoutValues_holding_eq_iff]

end Renaming

end DirectoryExchange.Directory

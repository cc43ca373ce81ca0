import DirectoryExchange.Proofs.Directory.InPlace

/-!
# Deleting what was added

Values that can be added (`AttributeBag.Fresh`) are put behind those that the attribute has, or make
a new last attribute.  Deleted again, in any order and under any spelling of the name, they leave
the bag as it was (`delete_add`), so a modify record that adds values and deletes them leaves the
directory as it was, whether it is accepted or rejected (`restored_by_delete`).
-/

namespace DirectoryExchange

namespace AttributeBag

/-- Whether the values can be added: none of them comes twice, and none is held under the name. -/
def Fresh (b : AttributeBag) (name : String) (values : List Bytes) : Prop :=
  values.Nodup ∧ ∀ held, b.get? name = some held → ∀ v ∈ values, v ∉ held

/-! ### Value by value -/

/-- Values that are new and differ from each other are all pushed. -/
lemma pushDistinct_of_fresh {held values : List Bytes} (hdistinct : values.Nodup)
    (hnew : ∀ v ∈ values, v ∉ held) : pushDistinct held values = (true, held ++ values) := by
  induction values generalizing held with
  | nil => rw [pushDistinct, List.append_nil]
  | cons v rest ih =>
    obtain ⟨hv, hrest⟩ := List.nodup_cons.1 hdistinct
    obtain ⟨hnewv, hnewrest⟩ := List.forall_mem_cons.1 hnew
    have hbehind : ∀ w ∈ rest, w ∉ held ++ [v] := by
      intro w hw
      rw [List.mem_append, List.mem_singleton, not_or]
      refine ⟨hnewrest w hw, ?_⟩
      rintro rfl
      exact hv hw
    rw [pushDistinct, if_neg hnewv, ih hrest hbehind, List.append_assoc, List.singleton_append]

/-- Values are added up to one that is there already, be it one that was just added. -/
lemma fst_pushDistinct_iff {held values : List Bytes} :
    (pushDistinct held values).1 = true ↔ values.Nodup ∧ ∀ v ∈ values, v ∉ held := by
  constructor
  · intro h
    induction values generalizing held with
    | nil => exact ⟨.nil, fun _ hv => absurd hv List.not_mem_nil⟩
    | cons v rest ih =>
      unfold pushDistinct at h
      split at h
      · cases h
      · next hv =>
        obtain ⟨hdistinct, hnew⟩ := ih h
        simp only [List.mem_append, List.mem_singleton, not_or] at hnew
        refine ⟨List.nodup_cons.2 ⟨fun hmem => (hnew v hmem).2 rfl, hdistinct⟩, ?_⟩
        exact List.forall_mem_cons.2 ⟨hv, fun w hw => (hnew w hw).1⟩
  · rintro ⟨hdistinct, hnew⟩
    rw [pushDistinct_of_fresh hdistinct hnew]

/-- Values behind others can be taken away again in any order, since none of them comes before. -/
lemma takeAway_append_of_perm {held values taken : List Bytes} (hperm : taken.Perm values)
    (hnew : ∀ v ∈ values, v ∉ held) : takeAway (held ++ values) taken = (true, held) := by
  -- the values that are left to take away are those that are left of the added ones
  induction taken generalizing values with
  | nil => rw [hperm.symm.eq_nil, List.append_nil, takeAway]
  | cons v rest ih =>
    have hv : v ∈ values := hperm.subset List.mem_cons_self
    have hrest : rest.Perm (values.erase v) :=
      List.Perm.cons_inv (hperm.trans (List.perm_cons_erase hv))
    rw [takeAway, if_pos (List.mem_append_right _ hv), List.erase_append_right _ (hnew v hv)]
    exact ih hrest fun w hw => hnew w (List.mem_of_mem_erase hw)

/-! ### Bags -/

section Bag

variable {b : AttributeBag} {name other : String} {values taken : List Bytes}

/-- The values of a name are those of the first attribute with it. -/
lemma get?_of_append {spelling : String} {held : List Bytes}
    {before behind : List (String × List Bytes)}
    (hpairs : b.attributes = before ++ (spelling, held) :: behind)
    (hbefore : ∀ p ∈ before, ¬ sameName p.1 name) (hname : sameName spelling name) :
    b.get? name = some held := by
  have hfront : before.find? (fun p => sameName p.1 name) = none := List.find?_eq_none.2 hbefore
  have hfound : ((spelling, held) :: behind).find? (fun p => sameName p.1 name) =
      some (spelling, held) := List.find?_cons_of_pos hname
  change (b.attributes.find? fun p => sameName p.1 name).map (·.2) = some held
  rw [hpairs, List.find?_append, hfront, hfound]
  rfl

/-- Values can be added if they differ from each other and from those held. -/
lemma fresh_iff : b.Fresh name values ↔
    values.Nodup ∧ ∀ v ∈ values, v ∉ (b.get? name).getD [] := by
  unfold Fresh
  cases b.get? name with
  | none => simp
  | some held => simp

/-- Fresh values are added behind those that are held. -/
lemma add_of_fresh (hvalues : values ≠ []) (h : b.Fresh name values) :
    b.add name values = (.ok (), b.put name ((b.get? name).getD [] ++ values)) := by
  obtain ⟨hdistinct, hnew⟩ := fresh_iff.1 h
  rw [add, if_neg hvalues, pushDistinct_of_fresh hdistinct hnew]
  rfl

/-- Values that are not fresh are refused. -/
lemma fst_add_of_not_fresh (hvalues : values ≠ []) (h : ¬ b.Fresh name values) :
    (b.add name values).1 = .error (valueExists name) := by
  rw [fresh_iff, ← fst_pushDistinct_iff, Bool.not_eq_true] at h
  rw [add, if_neg hvalues]
  simp only [h, Bool.false_eq_true, if_false]

/-- What is left when values could be taken away stays, if there is any of it. -/
lemma delete_of_takeAway {held left : List Bytes} (hget : b.get? name = some held)
    (hvalues : values ≠ []) (htaken : takeAway held values = (true, left)) :
    b.delete name values = (.ok (), if left = [] then b.remove name else b.put name left) := by
  rw [delete, hget]
  simp only [if_neg hvalues, htaken]
  cases left <;> rfl

/-- Fresh values that were added can be deleted again in any order and under any spelling of the
name, and everything is where it was before. -/
theorem delete_add (hvalued : ∀ p ∈ b.attributes, p.2 ≠ []) (hvalues : values ≠ [])
    (hfresh : b.Fresh name values) (hname : sameName name other) (hperm : taken.Perm values) :
    (b.add name values).2.delete other taken = (.ok (), b) := by
  have htaken : taken ≠ [] := fun h => hvalues (by rw [← List.perm_nil, ← h]; exact hperm.symm)
  have hnew := (fresh_iff.1 hfresh).2
  have hother : ∀ p : String × List Bytes, ¬ sameName p.1 name → ¬ sameName p.1 other := by
    intro p hp hsame
    rw [sameName_comm] at hname
    exact hp (sameName_trans hsame hname)
  rw [add_of_fresh hvalues hfresh]
  rcases b.get?_cases name with
    ⟨before, spelling, held, behind, hpairs, hsame, hbefore, hget⟩ | ⟨hnone, hget⟩
  · -- the attribute keeps its place, and has its own values in front of the new ones
    rw [hget, Option.getD_some] at hnew ⊢
    have hbefore' : ∀ p ∈ before, ¬ sameName p.1 other := fun p hp => hother p (hbefore p hp)
    have hsame' : sameName spelling other := sameName_trans hsame hname
    have hput : (b.put name (held ++ values)).attributes =
        before ++ (spelling, held ++ values) :: behind := by
      rw [put, hpairs, putInto_append hbefore hsame]
    have hheld : held ≠ [] := hvalued (spelling, held) (by simp [hpairs])
    rw [delete_of_takeAway (get?_of_append hput hbefore' hsame') htaken
      (takeAway_append_of_perm hperm hnew), if_neg hheld, put, hput,
      putInto_append hbefore' hsame', ← hpairs]
  · -- the attribute is a new last one, and goes with the last of its values
    rw [hget, Option.getD_none] at hnew ⊢
    have hnone' : ∀ p ∈ b.attributes, ¬ sameName p.1 other := fun p hp => hother p (hnone p hp)
    have hput : (b.put name ([] ++ values)).attributes =
        b.attributes ++ (name, [] ++ values) :: [] := by
      rw [put, putInto_of_new hnone]
    rw [delete_of_takeAway (get?_of_append hput hnone' hname) htaken
      (takeAway_append_of_perm hperm hnew), if_pos rfl, remove, hput,
      eraseP_append hnone' hname, List.append_nil]

/-- Two modifications that add values and delete them again leave the bag as it was, if the values
can be added. -/
lemma applyAll_add_delete (hvalued : ∀ p ∈ b.attributes, p.2 ≠ []) {m n : Modification}
    (hadd : m.kind = .add) (hdelete : n.kind = .delete) (hname : sameName m.name n.name)
    (hperm : n.values.Perm m.values) (hfresh : b.Fresh m.name m.values) :
    b.applyAll [m, n] = .ok b := by
  have hvalues := m.add_values_ne hadd
  have hfirst : b.apply m = (.ok (), (b.add m.name m.values).2) := by
    rw [apply, hadd]
    simp only [add_of_fresh hvalues hfresh]
  have hsecond : (b.add m.name m.values).2.apply n = (.ok (), b) := by
    rw [apply, hdelete]
    exact delete_add hvalued hvalues hfresh hname hperm
  simp only [applyAll, hfirst, hsecond]

/-- A modification that is refused is the end of a record, whatever comes behind it. -/
lemma applyAll_of_not_fresh {m : Modification} (hadd : m.kind = .add)
    (hfresh : ¬ b.Fresh m.name m.values) (rest : List Modification) :
    b.applyAll (m :: rest) = .error (valueExists m.name) := by
  have hfirst : b.apply m = (.error (valueExists m.name), (b.add m.name m.values).2) := by
    rw [apply, hadd]
    exact Prod.ext (fst_add_of_not_fresh (m.add_values_ne hadd) hfresh) rfl
  simp only [applyAll, hfirst]

end Bag

end AttributeBag

namespace Directory

/-! ### Entries of a directory -/

section Modify

variable {d : Directory} {dn : String} {path : Dn.Path} {held : StoredEntry}
  {steps : List Modification}

/-- Modifications that give the attributes that the entry has leave the directory as it was. -/
lemma modify_eq_self (hpath : Dn.path? dn = some path) (hheld : d.entryAt? path = some held)
    (happly : held.attributes.applyAll steps = .ok held.attributes) :
    d.modify dn steps = .ok d := by
  have hmem : (path, some held) ∈ d.nodes.toList :=
    mem_occupied.1 (entryAt?_eq_some_iff.1 hheld)
  have hway : d.hasNodeAt path.dropLast = true :=
    hasNodeAt_of_isPrefix (hasNodeAt_of_entryAt? hheld) (List.dropLast_prefix path)
  refine modify_eq_ok_iff.2 ⟨path, held, held.attributes, hpath, hheld, happly, ?_⟩
  have hnodes : (d.putEntry path held).nodes =
      (d.pave path.dropLast).nodes.insert path (some held) := rfl
  exact Directory.ext (by rw [hnodes, pave_eq_self hway, SortedMap.insert_eq_self hmem])

/-- A record that its entry refuses is refused by the directory. -/
lemma modify_eq_error (hpath : Dn.path? dn = some path) (hheld : d.entryAt? path = some held)
    {e : DirectoryError} (happly : held.attributes.applyAll steps = .error e) :
    d.modify dn steps = .error e := by
  refine bind_eq_error_iff.2 (.inr ⟨path, pathOf_eq_ok_iff.2 hpath, ?_⟩)
  rw [hheld]
  exact bind_eq_error_iff.2 (.inl happly)

end Modify

/-- Values are added to a bag exactly if they are fresh, and deleted again, in any order and under
any spelling of the name, they leave it as it was.  So do modifications of an entry of a directory
that add values and delete them: the directory is as it was if they are accepted, and if they are
rejected because the values cannot be added. -/
theorem restored_by_delete :
    (∀ (b : AttributeBag) (name : String) (values : List Bytes),
      (∀ p ∈ b.attributes, p.2 ≠ []) → values ≠ [] →
      ((b.add name values).1 = .ok () ↔ b.Fresh name values) ∧
        ((b.add name values).1 = .ok () →
          ∀ other taken, sameName name other → taken.Perm values →
            (b.add name values).2.delete other taken = (.ok (), b))) ∧
    ∀ (records : List ChangeRecord) (path : Dn.Path) (held : StoredEntry),
      let d := empty.after records
      d.entryAt? path = some held →
      ∀ (dn : String) (hdn : dn ≠ "") (m n : Modification), Dn.path? dn = some path →
        m.kind = .add → n.kind = .delete → sameName m.name n.name → n.values.Perm m.values →
        let record : ChangeRecord := .modify dn [m, n] hdn (List.cons_ne_nil _ _)
        ((connection.apply d record).1 = .ok () ↔ held.attributes.Fresh m.name m.values) ∧
          (¬ held.attributes.Fresh m.name m.values →
            (connection.apply d record).1 =
              .error (.directory (AttributeBag.valueExists m.name))) ∧
          (connection.apply d record).2 = d ∧ (runSteps (applyInPlace record) d).2 = d := by
  refine ⟨?_, ?_⟩
  · intro b name values hvalued hvalues
    have hiff : (b.add name values).1 = .ok () ↔ b.Fresh name values := by
      by_cases hfresh : b.Fresh name values
      · simp only [AttributeBag.add_of_fresh hvalues hfresh, hfresh]
      · simp [AttributeBag.fst_add_of_not_fresh hvalues hfresh, hfresh]
    exact ⟨hiff, fun hadd other taken hname hperm =>
      AttributeBag.delete_add hvalued hvalues (hiff.1 hadd) hname hperm⟩
  · intro records path held d hheld dn hdn m n hpath hadd hdelete hname hperm record
    have hvalid := (sound_after records path held (entryAt?_eq_some_iff.1 hheld)).valid
    have hsteps : runSteps (applyInPlace record) d = settle d (d.modify dn [m, n]) :=
      runSteps_applyInPlace d record
    have hconnection := connection_apply d record
    have happly : d.apply record = d.modify dn [m, n] := rfl
    -- the addition fails unless the values are fresh, and else the deletion takes them out again
    by_cases hfresh : held.attributes.Fresh m.name m.values
    · have hmodify := modify_eq_self hpath hheld
        (AttributeBag.applyAll_add_delete hvalid.valued hadd hdelete hname hperm hfresh)
      rw [hconnection, hsteps, happly, hmodify]
      exact ⟨⟨fun _ => hfresh, fun _ => rfl⟩, fun h => absurd hfresh h, rfl, rfl⟩
    · have hmodify := modify_eq_error hpath hheld
        (AttributeBag.applyAll_of_not_fresh hadd hfresh [n])
      rw [hconnection, hsteps, happly, hmodify]
      exact ⟨⟨nofun, fun h => absurd h hfresh⟩, fun _ => rfl, rfl, rfl⟩

/-- Values that an attribute holds twice stay where they are. -/
theorem restored_by_delete_repeated :
    let e : Entry := ⟨"cn=x", [⟨"cn", [[0x78], [0x78]], by decide, by decide⟩], by decide,
      by decide⟩
    let held : StoredEntry := ⟨"cn=x", ⟨[("cn", [[0x78], [0x78]])]⟩⟩
    let d := empty.after [.add e]
    let m : Modification := ⟨.add, "CN", [[0x79], [0x7A]], by decide, by decide⟩
    let n : Modification := ⟨.delete, "Cn", [[0x7A], [0x79]], by decide, by decide⟩
    let record : ChangeRecord := .modify "cn=x" [m, n] (by decide) (by decide)
    d.entryAt? [[⟨"cn", [0x78]⟩]] = some held ∧ held.attributes.Fresh m.name m.values ∧
      (connection.apply d record).1 = .ok () ∧ (connection.apply d record).2 = d := by
  intro e held d m n record
  have hheld : d.entryAt? [[⟨"cn", [0x78]⟩]] = some held := by decide +kernel
  have hpath : Dn.path? "cn=x" = some [[⟨"cn", [0x78]⟩]] := by decide +kernel
  have hfresh : held.attributes.Fresh m.name m.values := by
    refine ⟨by decide, fun values hget => ?_⟩
    have hvalues : held.attributes.get? m.name = some [[0x78], [0x78]] := by decide
    obtain rfl : [[0x78], [0x78]] = values := Option.some.inj (hvalues.symm.trans hget)
    decide
  obtain ⟨haccepted, -, hsame, -⟩ := restored_by_delete.2 [.add e] _ _ hheld "cn=x" (by decide)
    m n hpath rfl rfl (by decide) (by decide)
  exact ⟨hheld, hfresh, haccepted.2 hfresh, hsame⟩

end Directory

end DirectoryExchange

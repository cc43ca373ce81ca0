import DirectoryExchange.Proofs.Directory.Additions
import DirectoryExchange.Proofs.Directory.Runs

/-!
# Relative names on their own

The relative name that a rename brings is parsed without the parts around it, as a list of pairs
between plus signs.  The commas that stand for themselves, which would keep it apart from another
one in a name, are then part of its types and values.  So it is a name with one part, and what the
name of a parent is put behind, exactly if there is no such comma (`relative_name`).
-/

namespace DirectoryExchange.Directory

/-- Whether the operation is refused because a name is malformed. -/
def RefusedAsMalformed {α : Type} (answer : Except DirectoryError α) : Prop :=
  ∃ e, answer = .error e ∧ e.code = .invalidDnSyntax

section Rename

variable {d : Directory} {dn : String} {path : Dn.Path}

/-- A new parent is refused as malformed exactly if it is given and is no name. -/
lemma newParent_malformed_iff (rename : Rename) :
    RefusedAsMalformed (d.newParent dn path rename) ↔
      ∃ superior, rename.newSuperior = some superior ∧ Dn.path? superior = none := by
  rw [newParent]
  cases hsuperior : rename.newSuperior with
  | none => exact iff_of_false nofun nofun
  | some superior =>
    cases hpath : Dn.path? superior with
    | none =>
      have hmalformed : pathOf superior = .error (invalidDn superior) := by rw [pathOf, hpath]
      simp only [hmalformed]
      exact iff_of_true ⟨_, rfl, rfl⟩ ⟨superior, rfl, hpath⟩
    | some superiorPath =>
      refine iff_of_false ?_ ?_
      · rintro ⟨e, he, hcode⟩
        simp only [pathOf_eq_ok_iff.2 hpath, ok_bind] at he
        split at he
        · cases he
          exact absurd hcode (by decide : ResultCode.unwillingToPerform ≠ .invalidDnSyntax)
        · split at he
          · cases he
          · cases he
            exact absurd hcode (by decide : ResultCode.noSuchObject ≠ .invalidDnSyntax)
      · rintro ⟨other, heq, hnone⟩
        obtain rfl := Option.some.inj heq
        rw [hpath] at hnone
        cases hnone

/-- A rename of an entry is refused for the form of a name exactly if the new relative name cannot
be parsed on its own, or the name of the new parent is malformed. -/
theorem rename_malformed_iff (hpath : Dn.path? dn = some path) (hne : path ≠ [])
    (hthere : (d.entryAt? path).isSome) (rename : Rename) :
    RefusedAsMalformed (d.rename dn rename) ↔ Dn.parseRdn? rename.newRdn = none ∨
      ∃ superior, rename.newSuperior = some superior ∧ Dn.path? superior = none := by
  obtain ⟨held, hheld⟩ := Option.isSome_iff_exists.1 hthere
  have hparent : RefusedAsMalformed (d.newParent dn path rename) ↔ _ :=
    newParent_malformed_iff rename
  rw [Directory.rename, entryPathOf_eq_ok_iff.2 ⟨hpath, hne⟩, ok_bind, hheld, ← hparent]
  cases hrdn : Dn.parseRdn? rename.newRdn with
  | none => exact iff_of_true ⟨_, rfl, rfl⟩ (.inl rfl)
  | some rdn =>
    simp only [reduceCtorEq, false_or]
    constructor
    · rintro ⟨e, he, hcode⟩
      rcases bind_eq_error_iff.1 he with hparent | ⟨⟨parentPath, parentDn⟩, -, htaken⟩
      · exact ⟨e, hparent, hcode⟩
      · -- a place that is taken is refused for another reason
        simp only at htaken
        split at htaken
        · cases htaken
          exact absurd hcode (by decide : ResultCode.entryAlreadyExists ≠ .invalidDnSyntax)
        · cases htaken
    · rintro ⟨e, he, hcode⟩
      exact ⟨e, bind_eq_error_iff.2 (.inl he), hcode⟩

end Rename

/-- A text that is parsed as a relative name on its own is a name with that one part, and goes in
front of the name of a parent, exactly if no comma in it stands for itself.  A rename asks for no
more than that the text is parsed on its own. -/
theorem relative_name (text : String) :
    (∀ rdn, Dn.parse? text = some [rdn] ↔
      Dn.parseRdn? text = some rdn ∧ (Dn.splitFirst text).2 = none) ∧
    ((∀ rdn, Dn.parseRdn? text = some rdn ↔ Dn.parse? text = some [rdn]) ↔
      (Dn.parseRdn? text).isSome → (Dn.splitFirst text).2 = none) ∧
    (∀ rdn parent rdns, Dn.parseRdn? text = some rdn → Dn.parse? parent = some rdns → rdns ≠ [] →
      (Dn.parse? (text ++ "," ++ parent) = some ([rdn] ++ rdns) ↔
        (Dn.splitFirst text).2 = none)) ∧
    ∀ (d : Directory) (dn : String) (path : Dn.Path) (rename : Rename),
      Dn.path? dn = some path → path ≠ [] → (d.entryAt? path).isSome → rename.newRdn = text →
        (RefusedAsMalformed (d.rename dn rename) ↔ Dn.parseRdn? text = none ∨
          ∃ superior, rename.newSuperior = some superior ∧ Dn.path? superior = none) := by
  have hsingle : ∀ rdn, Dn.parse? text = some [rdn] ↔
      Dn.parseRdn? text = some rdn ∧ (Dn.splitFirst text).2 = none :=
    fun rdn => Dn.parse?_eq_singleton_iff
  refine ⟨hsingle, ⟨?_, ?_⟩, ?_, ?_⟩
  · intro hagree hsome
    obtain ⟨rdn, hrdn⟩ := Option.isSome_iff_exists.1 hsome
    exact ((hsingle rdn).1 ((hagree rdn).1 hrdn)).2
  · intro hwhole rdn
    rw [hsingle rdn]
    exact ⟨fun hrdn => ⟨hrdn, hwhole (by rw [hrdn]; rfl)⟩, And.left⟩
  · intro rdn parent rdns hrdn hparent hne
    exact Dn.parse?_join_iff hrdn hparent hne
  · rintro d dn path rename hpath hne hthere rfl
    exact rename_malformed_iff hpath hne hthere rename

/-- A comma that is escaped stays in the value. -/
theorem relative_name_escapedComma :
    let rdn : Dn.Rdn := [⟨"cn", [0x61, 0x2C, 0x62]⟩]
    let parent : List Dn.Rdn := [[⟨"dc", [0x63]⟩]]
    let old : Entry := ⟨"cn=x", [⟨"cn", [[0x78]], by decide, by decide⟩], by decide, by decide⟩
    Dn.parse? "cn=a\\,b" = some [rdn] ∧
      Dn.parse? ("cn=a\\,b" ++ "," ++ "dc=c") = some ([rdn] ++ parent) ∧
      ¬ RefusedAsMalformed ((empty.after [.add old]).rename "cn=x"
        ⟨"cn=a\\,b", false, none, by decide, by decide⟩) := by
  intro rdn parent old
  have hrdn : Dn.parseRdn? "cn=a\\,b" = some rdn := by decide +kernel
  have hwhole : (Dn.splitFirst "cn=a\\,b").2 = none := by decide +kernel
  obtain ⟨hsingle, -, hjoin, hrename⟩ := relative_name "cn=a\\,b"
  refine ⟨(hsingle rdn).2 ⟨hrdn, hwhole⟩,
    (hjoin rdn "dc=c" parent hrdn (by decide +kernel) (by decide)).2 hwhole, ?_⟩
  rw [hrename _ "cn=x" [[⟨"cn", [0x78]⟩]] _ (by decide +kernel) (by decide) (by decide +kernel) rfl,
    hrdn]
  rintro (hnone | ⟨superior, hsuperior, -⟩)
  · cases hnone
  · cases hsuperior

/-- A rename accepts a relative name that goes on behind a comma, and is no name. -/
theorem relative_name_beyondComma :
    let old : Entry := ⟨"cn=x", [⟨"cn", [[0x78]], by decide, by decide⟩], by decide, by decide⟩
    Dn.parseRdn? "cn=a,b" = some [⟨"cn", [0x61, 0x2C, 0x62]⟩] ∧ Dn.parse? "cn=a,b" = none ∧
      Dn.parse? ("cn=a,b" ++ "," ++ "dc=c") = none ∧
      (connection.apply (empty.after [.add old])
        (.rename "cn=x" ⟨"cn=a,b", false, none, by decide, by decide⟩ (by decide))).1 = .ok () := by
  decide +kernel

end DirectoryExchange.Directory

import DirectoryExchange.Directory.Change
import DirectoryExchange.Proofs.Dn.Keys
import DirectoryExchange.Proofs.Traversal

/-!
# Spellings of one name

A directory looks at the path that a name gives and not at the name, so that texts with the same
path get the same answers (`interchangeable_of_path?_eq`).  Only the words of an error repeat the
name as it was spelled, wherefore answers are compared without them (`Alike`).
-/

namespace DirectoryExchange.Directory

/-! ### Answers without their words -/

/-- Whether both have the same result, or errors with the same code. -/
def Alike {α : Type} (x y : Except DirectoryError α) : Prop :=
  x.mapError DirectoryError.code = y.mapError DirectoryError.code

namespace Alike

variable {α β : Type} {x y : Except DirectoryError α}

lemma cases (h : Alike x y) : (∃ a, x = .ok a ∧ y = .ok a) ∨
    ∃ e e', x = .error e ∧ y = .error e' ∧ e.code = e'.code := by
  cases x <;> cases y <;> simp_all [Alike, Except.mapError]

lemma refl (x : Except DirectoryError α) : Alike x x := rfl

lemma error {e e' : DirectoryError} (h : e.code = e'.code) :
    Alike (.error e : Except DirectoryError α) (.error e') :=
  congrArg Except.error h

/-- Steps that go on alike from the same result end alike. -/
lemma bind (h : Alike x y) {f g : α → Except DirectoryError β} (hfg : ∀ a, Alike (f a) (g a)) :
    Alike (x >>= f) (y >>= g) := by
  rcases h.cases with ⟨a, rfl, rfl⟩ | ⟨e, e', rfl, rfl, hcode⟩
  · exact hfg a
  · exact error hcode

/-- Answers that are alike on both sides of a test are alike behind it. -/
lemma ite {c : Prop} [Decidable c] {x' y' : Except DirectoryError α} (h : Alike x y)
    (h' : Alike x' y') : Alike (if c then x else x') (if c then y else y') := by
  split
  · exact h
  · exact h'

end Alike

/-- The code with which a change ends; `none` if the directory was not reached. -/
def codeOf : Except OperationError Unit → Option ResultCode
  | .ok () => some .success
  | .error (.directory e) => some e.code
  | .error (.connection _) => none

/-- Whether two texts get the same answers from every directory, and leave the same directory
behind.  Only the words may be different. -/
structure Interchangeable (dn dn' : String) : Prop where
  /-- The same entry is found. -/
  get : ∀ d : Directory, d.get? dn = d.get? dn'
  /-- A search that begins there finds the same entries or fails with the same code, and changes
  nothing. -/
  search : ∀ (d : Directory) (filter : String) (scope : Scope), ∃ result result',
    connection.search d ⟨dn, filter, scope⟩ = (.ok result, d) ∧
      connection.search d ⟨dn', filter, scope⟩ = (.ok result', d) ∧
        result.code = result'.code ∧ result.entries = result'.entries
  /-- The same entry is deleted. -/
  delete : ∀ (d : Directory) (hdn : dn ≠ "") (hdn' : dn' ≠ ""),
    codeOf (connection.apply d (.delete dn hdn)).1 =
        codeOf (connection.apply d (.delete dn' hdn')).1 ∧
      (connection.apply d (.delete dn hdn)).2 = (connection.apply d (.delete dn' hdn')).2
  /-- The same entry is modified. -/
  modify : ∀ (d : Directory) (steps : List Modification) (hsteps : steps ≠ []) (hdn : dn ≠ "")
      (hdn' : dn' ≠ ""),
    codeOf (connection.apply d (.modify dn steps hdn hsteps)).1 =
        codeOf (connection.apply d (.modify dn' steps hdn' hsteps)).1 ∧
      (connection.apply d (.modify dn steps hdn hsteps)).2 =
        (connection.apply d (.modify dn' steps hdn' hsteps)).2

/-! ### Answers to names of one place -/

section

variable {dn dn' : String} {d : Directory}

/-- Names of one place are taken for it alike. -/
lemma pathOf_alike (h : Dn.path? dn = Dn.path? dn') : Alike (pathOf dn) (pathOf dn') := by
  rw [pathOf, pathOf, h]
  cases Dn.path? dn' with
  | some path => exact .refl _
  | none => exact .error rfl

lemma entryPathOf_alike (h : Dn.path? dn = Dn.path? dn') :
    Alike (entryPathOf dn) (entryPathOf dn') :=
  (pathOf_alike h).bind fun _ => .ite (.error rfl) (.refl _)

/-- A search finds the same below either name. -/
lemma find_alike (h : Dn.path? dn = Dn.path? dn') (filter : String) (scope : Scope) :
    Alike (d.find ⟨dn, filter, scope⟩) (d.find ⟨dn', filter, scope⟩) :=
  (Alike.refl (filterOf filter)).bind fun _ => (pathOf_alike h).bind fun _ =>
    .ite (.refl _) (.error rfl)

/-- A deletion under either name does the same. -/
lemma delete_alike (h : Dn.path? dn = Dn.path? dn') : Alike (d.delete dn) (d.delete dn') :=
  (entryPathOf_alike h).bind fun _ => .ite (.error rfl) (.ite (.error rfl) (.refl _))

/-- A modification under either name does the same. -/
lemma modify_alike (h : Dn.path? dn = Dn.path? dn') (steps : List Modification) :
    Alike (d.modify dn steps) (d.modify dn' steps) := by
  refine (pathOf_alike h).bind fun path => ?_
  cases d.entryAt? path with
  | none => exact .error rfl
  | some held => exact .refl _

end

/-- Changes that end alike have the same code and leave the same directory. -/
lemma apply_alike {d : Directory} {record record' : ChangeRecord}
    (h : Alike (d.apply record) (d.apply record')) :
    codeOf (connection.apply d record).1 = codeOf (connection.apply d record').1 ∧
      (connection.apply d record).2 = (connection.apply d record').2 := by
  rcases h.cases with ⟨after, hrecord, hrecord'⟩ | ⟨e, e', hrecord, hrecord', hcode⟩
  · simp only [connection, hrecord, hrecord', and_self]
  · simp only [connection, hrecord, hrecord', codeOf, hcode, and_self]

/-- Searches that find alike answer with the same code and the same entries. -/
lemma search_alike {d : Directory} {request request' : SearchRequest}
    (h : Alike (d.find request) (d.find request')) :
    (d.search request).code = (d.search request').code ∧
      (d.search request).entries = (d.search request').entries := by
  rcases h.cases with ⟨entries, hfind, hfind'⟩ | ⟨e, e', hfind, hfind', hcode⟩
  · simp only [search, hfind, hfind', and_self]
  · simp only [search, hfind, hfind', hcode, and_self]

/-- Texts with the same path get the same answers. -/
theorem interchangeable_of_path?_eq {dn dn' : String} (h : Dn.path? dn = Dn.path? dn') :
    Interchangeable dn dn' where
  get d := by rw [get?, get?, h]
  search _ filter scope := ⟨_, _, rfl, rfl, search_alike (find_alike h filter scope)⟩
  delete _ _ _ := apply_alike (delete_alike h)
  modify _ steps _ _ _ := apply_alike (modify_alike h steps)

/-! ### Which texts name one place -/

/-- Two names have the same path exactly if their relative names have, place by place, the same
pairs in lower case, each as often.  However relative names are written, with their pairs in any
order and ASCII letters in either case, it is the same path; where types are ASCII, nothing else
is.  And names with the same path are interchangeable. -/
theorem path?_eq_iff_same_pairs {dn dn' : String} {rdns rdns' : List Dn.Rdn}
    (h : Dn.parse? dn = some rdns) (h' : Dn.parse? dn' = some rdns') :
    (Dn.path? dn = Dn.path? dn' ↔
      List.Forall₂ (fun a b => (Dn.pairs a).Perm (Dn.pairs b)) rdns rdns') ∧
    (∀ respelled text, List.Forall₂ Dn.Respelled rdns respelled →
      Dn.Renders respelled (String.toList text) → Dn.path? text = Dn.path? dn) ∧
    ((∀ rdn ∈ rdns ++ rdns', Dn.AsciiTypes rdn) → Dn.path? dn = Dn.path? dn' →
      List.Forall₂ Dn.Respelled rdns rdns') ∧
    (Dn.path? dn = Dn.path? dn' → Interchangeable dn dn') := by
  have hpath : Dn.path? dn = some (Dn.pathOf rdns) := by rw [Dn.path?, h, Option.map_some]
  have hpath' : Dn.path? dn' = some (Dn.pathOf rdns') := by rw [Dn.path?, h', Option.map_some]
  have hiff : Dn.path? dn = Dn.path? dn' ↔
      List.Forall₂ (fun a b => (Dn.pairs a).Perm (Dn.pairs b)) rdns rdns' := by
    rw [hpath, hpath', Option.some.injEq, Dn.pathOf_eq_iff]
  refine ⟨hiff, ?_, ?_, interchangeable_of_path?_eq⟩
  · intro respelled text hrespelled hrenders
    have hsame := Dn.pathOf_eq_iff.2 (hrespelled.imp fun _ _ hrdn => hrdn.perm)
    rw [Dn.path?, Dn.parse?_of_renders hrenders, Option.map_some, hpath, hsame]
  · intro hascii heq
    obtain ⟨hlength, hpairs⟩ := List.forall₂_iff_zip.1 (hiff.1 heq)
    refine List.forall₂_iff_zip.2 ⟨hlength, fun {a b} hab => ?_⟩
    obtain ⟨ha, hb⟩ := List.of_mem_zip hab
    exact Dn.respelled_of_perm (hascii a (List.mem_append_left _ ha))
      (hascii b (List.mem_append_right _ hb)) (hpairs hab)

/-- Pairs in another order, other letters and escapes do not make it another place. -/
theorem interchangeable_bart :
    Dn.path? "cn=Bart+uid=bart,dc=com" = Dn.path? "UID = B\\61rt + CN=\\42ART , DC=COM" ∧
      Interchangeable "cn=Bart+uid=bart,dc=com" "UID = B\\61rt + CN=\\42ART , DC=COM" := by
  have hparse : Dn.parse? "cn=Bart+uid=bart,dc=com" =
      some [[⟨"cn", [0x42, 0x61, 0x72, 0x74]⟩, ⟨"uid", [0x62, 0x61, 0x72, 0x74]⟩],
        [⟨"dc", [0x63, 0x6F, 0x6D]⟩]] := by
    decide +kernel
  have hparse' : Dn.parse? "UID = B\\61rt + CN=\\42ART , DC=COM" =
      some [[⟨"UID", [0x42, 0x61, 0x72, 0x74]⟩, ⟨"CN", [0x42, 0x41, 0x52, 0x54]⟩],
        [⟨"DC", [0x43, 0x4F, 0x4D]⟩]] := by
    decide +kernel
  obtain ⟨-, -, -, hsame⟩ := path?_eq_iff_same_pairs hparse hparse'
  have hpath : Dn.path? "cn=Bart+uid=bart,dc=com" =
      Dn.path? "UID = B\\61rt + CN=\\42ART , DC=COM" := by
    decide +kernel
  exact ⟨hpath, hsame hpath⟩

end DirectoryExchange.Directory

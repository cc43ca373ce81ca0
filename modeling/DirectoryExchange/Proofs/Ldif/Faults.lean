import DirectoryExchange.Ldif.Record
import DirectoryExchange.Proofs.Traversal
import Mathlib.Tactic.SplitIfs

/-!
# Where a record is at fault

What is wrong with a record is found on one of its lines, or where its name is given, and it is told
of that line: every step of reading a record faults where one of the lines it was given begins
(`FaultsAt`).  Only a record whose first line, behind a version line, does not give its name lacks a
`dn` line (`readRecord_error`).
-/

namespace DirectoryExchange.Ldif

/-- Whether a step that fails does so at one of the locations, for another reason than that there is
no `dn` line. -/
def FaultsAt {α : Type} (locations : List Location) (x : Except Refusal α) : Prop :=
  ∀ r, x = .error r → r.error.kind ≠ .missingDn ∧ r.error.location ∈ locations

namespace FaultsAt

variable {α β : Type} {locations : List Location} {location : Location} {l : LogicalLine}
  {lines : List LogicalLine}

/-! ### Steps -/

lemma ok (a : α) : FaultsAt locations (.ok a) := nofun

/-- A refusal at one of the locations, of a record with a name, is such a fault. -/
lemma error {r : Refusal} (hkind : r.error.kind ≠ .missingDn)
    (hlocation : r.error.location ∈ locations) :
    FaultsAt locations (.error r : Except Refusal α) := by
  rintro _ ⟨⟩
  exact ⟨hkind, hlocation⟩

/-- A refusal that is made at one of the locations is such a fault. -/
lemma refuse {kind : ParseErrorKind} (hkind : kind ≠ .missingDn) (h : location ∈ locations) :
    FaultsAt locations (.error (Ldif.refuse kind location) : Except Refusal α) :=
  .error hkind h

/-- Steps one after the other fault there if each of them does. -/
lemma bind {x : Except Refusal α} {f : α → Except Refusal β} (hx : FaultsAt locations x)
    (hf : ∀ a, x = .ok a → FaultsAt locations (f a)) : FaultsAt locations (x >>= f) := by
  intro r h
  rcases bind_eq_error_iff.1 h with h | ⟨a, ha, h⟩
  · exact hx r h
  · exact hf a ha r h

/-- A model error is told of the place it is given. -/
lemma invalid (h : location ∈ locations) (result : Except ModelError α) :
    FaultsAt locations (Ldif.invalid location result) := by
  intro r hr
  obtain ⟨e, -, rfl⟩ := mapError_eq_error_iff.1 hr
  exact ⟨nofun, h⟩

/-! ### Lines -/

/-- A value that cannot be read is told of its line. -/
lemma readValue (h : location ∈ locations) (behind : Bytes) :
    FaultsAt locations (Ldif.readValue location behind) := by
  have hdecode : ∀ encoded, FaultsAt locations (decodeValue location encoded) := by
    intro encoded
    unfold decodeValue
    split
    · exact refuse nofun h
    · split
      · exact ok _
      · exact error nofun h
  unfold Ldif.readValue
  split
  · exact ok _
  · split_ifs
    · exact hdecode _
    · exact refuse nofun h
    · exact ok _
    · exact ok _

/-- A line that cannot be split is told of itself. -/
lemma split (h : l.location ∈ locations) : FaultsAt locations l.split := by
  unfold LogicalLine.split
  split
  · exact refuse nofun h
  · split
    · exact refuse nofun h
    · split_ifs
      · exact refuse nofun h
      · exact bind (readValue h _) fun value _ => ok _

lemma splitText (h : l.location ∈ locations) : FaultsAt locations l.splitText := by
  refine bind (split h) ?_
  rintro ⟨name, value⟩ -
  dsimp only
  split
  · exact ok _
  · exact refuse nofun h

lemma unexpected (h : l.location ∈ locations) :
    FaultsAt locations (.error l.unexpected : Except Refusal α) :=
  refuse nofun h

/-! ### Records -/

/-- Values are gathered line by line, and each fault is of its line. -/
lemma gatherValues (h : ∀ l ∈ lines, l.location ∈ locations) (draft : EntryDraft) :
    FaultsAt locations (Ldif.gatherValues draft lines) := by
  induction lines generalizing draft with
  | nil => exact ok _
  | cons line rest ih =>
    obtain ⟨hline, hrest⟩ := List.forall_mem_cons.1 h
    rw [Ldif.gatherValues]
    split_ifs
    · exact unexpected hline
    · exact bind (split hline) fun _ _ => ih hrest _

/-- Of an added entry the lines can be at fault, or the entry as a whole, at its name. -/
lemma readAdd (hdn : location ∈ locations) (h : ∀ l ∈ lines, l.location ∈ locations)
    (dn : String) : FaultsAt locations (Ldif.readAdd dn location lines) :=
  bind (gatherValues h _) fun _ _ => bind (invalid hdn _) fun _ _ => ok _

/-- A deletion faults at the first line that follows the name, if there is one. -/
lemma readDelete (hdn : location ∈ locations) (h : ∀ l ∈ lines, l.location ∈ locations)
    (dn : String) : FaultsAt locations (Ldif.readDelete dn location lines) := by
  cases lines with
  | nil => exact invalid hdn _
  | cons line rest => exact unexpected (h line List.mem_cons_self)

/-- A block faults where it begins or on the line that it takes up, and its beginning stays. -/
lemma ofHead (h : l.location ∈ locations) :
    FaultsAt locations (Block.ofHead l) ∧
      ∀ block, Block.ofHead l = .ok block → block.location = l.location := by
  constructor
  · refine bind (splitText h) ?_
    rintro ⟨word, name⟩ -
    dsimp only
    split
    · exact ok _
    · exact refuse nofun h
  · intro block hblock
    obtain ⟨⟨word, name⟩, -, hblock⟩ := bind_eq_ok_iff.1 hblock
    dsimp only at hblock
    split at hblock
    · cases hblock
      rfl
    · cases hblock

/-- A line of a block can be at fault itself, and leaves the block where it began. -/
lemma add (h : l.location ∈ locations) (b : Block) :
    FaultsAt locations (b.add l) ∧ ∀ block, b.add l = .ok block → block.location = b.location := by
  constructor
  · refine bind (split h) ?_
    rintro ⟨name, value⟩ -
    dsimp only
    split_ifs
    · exact ok _
    · exact unexpected h
  · intro block hblock
    obtain ⟨⟨name, value⟩, -, hblock⟩ := bind_eq_ok_iff.1 hblock
    dsimp only at hblock
    split_ifs at hblock
    · cases hblock
      rfl

/-- Modifications fault at a line, or where the block that is open began. -/
lemma readBlocks {current : Option Block} (hcurrent : ∀ b ∈ current, b.location ∈ locations)
    (h : ∀ l ∈ lines, l.location ∈ locations) :
    FaultsAt locations (Ldif.readBlocks current lines) := by
  induction lines generalizing current with
  | nil =>
    cases current with
    | none => exact ok _
    | some block => exact bind (invalid (hcurrent block rfl) _) fun _ _ => ok _
  | cons line rest ih =>
    obtain ⟨hline, hrest⟩ := List.forall_mem_cons.1 h
    cases current with
    | none =>
      obtain ⟨hhead, hbegins⟩ := ofHead hline
      refine bind hhead fun block hblock => ih ?_ hrest
      rintro _ ⟨⟩
      rwa [hbegins block hblock]
    | some block =>
      have hblock := hcurrent block rfl
      rw [Ldif.readBlocks]
      split_ifs
      · exact bind (invalid hblock _) fun _ _ => bind (ih nofun hrest) fun _ _ => ok _
      · obtain ⟨hadd, hbegins⟩ := add hline block
        refine bind hadd fun block' hblock' => ih ?_ hrest
        rintro _ ⟨⟩
        rwa [hbegins block' hblock']

/-- A record of modifications faults at one of its lines or at its name. -/
lemma readModify (hdn : location ∈ locations) (h : ∀ l ∈ lines, l.location ∈ locations)
    (dn : String) : FaultsAt locations (Ldif.readModify dn location lines) :=
  bind (readBlocks nofun h) fun _ _ => invalid hdn _

/-- A line of a rename can only be at fault itself. -/
lemma addToRename (h : l.location ∈ locations) (d : RenameDraft) :
    FaultsAt locations (d.add l) := by
  refine bind (splitText h) ?_
  rintro ⟨name, value⟩ -
  dsimp only
  split
  · exact ok _
  · split
    · exact ok _
    · exact ok _
    · exact refuse nofun h
  · exact ok _
  · exact unexpected h

/-- A rename faults at one of its lines, or at its name if a line is missing. -/
lemma readRename (hdn : location ∈ locations) (h : ∀ l ∈ lines, l.location ∈ locations)
    (dn : String) : FaultsAt locations (Ldif.readRename dn location lines) := by
  have hdraft : ∀ draft, FaultsAt locations (lines.foldlM RenameDraft.add draft) := by
    induction lines with
    | nil => exact fun draft => ok draft
    | cons line rest ih =>
      obtain ⟨hline, hrest⟩ := List.forall_mem_cons.1 h
      intro draft
      rw [List.foldlM_cons]
      exact bind (addToRename hline draft) fun draft' _ => ih hrest draft'
  refine bind (hdraft {}) fun draft _ => ?_
  split
  · exact invalid hdn _
  · exact refuse nofun hdn

/-- A record of any kind faults at one of its lines or at its name. -/
lemma readChange (hdn : location ∈ locations) (h : ∀ l ∈ lines, l.location ∈ locations)
    (dn : String) : FaultsAt locations (Ldif.readChange dn location lines) := by
  have hbody : ∀ l ∈ lines.dropWhile (·.isNamed "control"), l.location ∈ locations :=
    fun l hl => h l (List.dropWhile_suffix _ |>.subset hl)
  unfold Ldif.readChange
  split
  · exact readAdd hdn (fun _ hl => absurd hl List.not_mem_nil) dn
  · next line body hlines =>
    rw [hlines] at hbody
    obtain ⟨hline, hbody'⟩ := List.forall_mem_cons.1 hbody
    split_ifs
    · refine bind (splitText hline) ?_
      rintro ⟨name, word⟩ -
      dsimp only
      split
      · exact readAdd hdn hbody' dn
      · exact readDelete hdn hbody' dn
      · exact readModify hdn hbody' dn
      · exact readRename hdn hbody' dn
      · exact readRename hdn hbody' dn
      · exact refuse nofun hline
    · exact readAdd hdn hbody dn

end FaultsAt

/-! ### The faults of a record -/

/-- A record without its version line, if it may have one. -/
def RawRecord.body (raw : RawRecord) (versionAllowed : Bool) : List LogicalLine :=
  if versionAllowed && raw.lines.head?.any (·.isNamed "version") then raw.lines.tail
  else raw.lines

/-- An error of a record is told of one of its lines, and a missing name of the first. -/
lemma readLines_error {lines : List LogicalLine} {r : Refusal} (h : readLines lines = .error r) :
    ∃ l ∈ lines, r.error.location = l.location ∧
      (r.error.kind = .missingDn → lines.head? = some l) := by
  cases lines with
  | nil => cases h
  | cons first rest =>
    rw [readLines] at h
    split_ifs at h with hdn
    · have hlocations : ∀ l ∈ first :: rest, l.location ∈ (first :: rest).map (·.location) :=
        fun l hl => List.mem_map_of_mem hl
      obtain ⟨hfirst, hrest⟩ := List.forall_mem_cons.1 hlocations
      obtain ⟨hkind, hlocation⟩ : r.error.kind ≠ .missingDn ∧
          r.error.location ∈ (first :: rest).map (·.location) := by
        rcases bind_eq_error_iff.1 h with h | ⟨name, -, h⟩
        · exact FaultsAt.splitText hfirst r h
        · exact FaultsAt.bind (.readChange hfirst hrest name.2) (fun _ _ => .ok _) r h
      obtain ⟨l, hl, hlocation⟩ := List.mem_map.1 hlocation
      exact ⟨l, hl, hlocation.symm, fun hmissing => absurd hmissing hkind⟩
    · cases h
      exact ⟨first, List.mem_cons_self, rfl, fun _ => rfl⟩

/-- A record that cannot be read has a continuation line with nothing before it to continue, and
that is where the fault is, or the fault is on one of its lines; if it is that there is no `dn`
line, this is the first one behind a version line. -/
theorem readRecord_error {versionAllowed : Bool} {raw : RawRecord} {e : ParseError}
    {told : List LogEvent} (h : readRecord versionAllowed raw = (.error e, told)) :
    (∃ n, raw.orphan = some n ∧ e = .recoverable .malformedLine (.line n)) ∨
      ∃ l ∈ raw.lines, e.location = l.location ∧
        (e.kind = .missingDn → (raw.body versionAllowed).head? = some l) := by
  unfold readRecord at h
  split at h
  · next number horphan =>
    cases h
    exact .inl ⟨number, horphan, rfl⟩
  · right
    split at h
    · next first rest hlines =>
      rw [RawRecord.body, hlines, List.head?_cons, Option.any_some, List.tail_cons]
      -- a version line counts as read, and the rest of the record is read without it
      split_ifs at h ⊢ with hversion
      · split at h
        · next version hsplit =>
          cases hread : readLines rest with
          | ok record =>
            rw [hread] at h
            cases h
          | error r =>
            rw [hread] at h
            cases h
            obtain ⟨l, hl, hlocation, hmissing⟩ := readLines_error hread
            exact ⟨l, List.mem_cons_of_mem _ hl, hlocation, hmissing⟩
        · next r hsplit =>
          cases h
          have hfaults : FaultsAt [first.location] first.splitText :=
            .splitText List.mem_cons_self
          obtain ⟨hkind, hlocation⟩ := hfaults r hsplit
          exact ⟨first, List.mem_cons_self, List.mem_singleton.1 hlocation,
            fun hmissing => absurd hmissing hkind⟩
      · cases hread : readLines (first :: rest) with
        | ok record =>
          rw [hread] at h
          cases h
        | error r =>
          rw [hread] at h
          cases h
          exact readLines_error hread
    · cases h

end DirectoryExchange.Ldif

import DirectoryExchange.Cli.Program
import DirectoryExchange.Proofs.Directory.Runs
import DirectoryExchange.Proofs.Transfer.Course
import DirectoryExchange.Proofs.Transfer.Success

/-!
# Converting

A conversion loads its input into an empty directory, strictly and without anyone to cancel it, and
only then turns to its output.  So the load either fails, at the opening of the reader or at some
item behind others that it got over, or it gets over all of them (`loads_or_fails`).  A load that
fails is the end of the conversion, and there is no third case in which it would have to be
reported as interrupted (`load_of_loadFails`, `load_of_loadsAs`).  Otherwise the directory to which
the accepted records have led is dumped (`run_of_open?`).
-/

namespace DirectoryExchange

namespace Transfer

/-! ### Loads into a directory in memory -/

/-- Items are got over by a load into a directory: the records that are accepted, in order, and the
directory behind the last item.  An item that is no record, or whose record is rejected, is passed
over if errors are ignored. -/
inductive Loads (ignoreErrors : Bool) :
    Directory → List Item → List ChangeRecord → Directory → Prop
  /-- There are none. -/
  | ended {d : Directory} : Loads ignoreErrors d [] [] d
  /-- A record is accepted. -/
  | accepted {d next last : Directory} {item : Item} {rest : List Item} {record : ChangeRecord}
      {records : List ChangeRecord} (hread : item.outcome = .ok record)
      (happly : d.apply record = .ok next) (hrest : Loads ignoreErrors next rest records last) :
      Loads ignoreErrors d (item :: rest) (record :: records) last
  /-- A record is rejected. -/
  | rejected {d last : Directory} {item : Item} {rest : List Item} {record : ChangeRecord}
      {records : List ChangeRecord} {error : DirectoryError} (hread : item.outcome = .ok record)
      (happly : d.apply record = .error error) (hignore : ignoreErrors = true)
      (hrest : Loads ignoreErrors d rest records last) :
      Loads ignoreErrors d (item :: rest) records last
  /-- An item is no record, and the reader can go on. -/
  | unreadable {d last : Directory} {item : Item} {rest : List Item}
      {records : List ChangeRecord} {error : ParseError}
      (hread : item.outcome = .error (.parse error)) (hmay : error.mayContinue = true)
      (hignore : ignoreErrors = true) (hrest : Loads ignoreErrors d rest records last) :
      Loads ignoreErrors d (item :: rest) records last

/-- A load into a directory fails at an item. -/
inductive FailsAt (ignoreErrors : Bool) (d : Directory) (item : Item) : Failure → Prop
  /-- The stream fails. -/
  | streamFailed {error : StreamError} (hread : item.outcome = .error (.stream error)) :
      FailsAt ignoreErrors d item (.stream error)
  /-- The item is no record, and the reader cannot go on or errors are not ignored. -/
  | unreadable {error : ParseError} (hread : item.outcome = .error (.parse error))
      (hstop : error.mayContinue = false ∨ ignoreErrors = false) :
      FailsAt ignoreErrors d item (.parse error)
  /-- The record is rejected, and errors are not ignored. -/
  | rejected {record : ChangeRecord} {error : DirectoryError} (hread : item.outcome = .ok record)
      (happly : d.apply record = .error error) (hstop : ignoreErrors = false) :
      FailsAt ignoreErrors d item (.directory error)

/-- A load into a directory gets over some items and fails at the next one. -/
def Fails (ignoreErrors : Bool) (d : Directory) (items : List Item) (failure : Failure) : Prop :=
  ∃ before item unread records last, items = before ++ item :: unread ∧
    Loads ignoreErrors d before records last ∧ FailsAt ignoreErrors last item failure

section Loading

variable {ignoreErrors : Bool} {d last : Directory} {item : Item} {items : List Item}
  {records : List ChangeRecord} {failure : Failure}

/-- A change that succeeds is answered with success, and the directory goes on changed. -/
lemma connection_apply_of_ok {record : ChangeRecord} (h : d.apply record = .ok last) :
    Directory.connection.apply d record = (.ok (), last) := by
  simp only [Directory.connection, h]

/-- A change that fails is answered with its error, and the directory stays as it was. -/
lemma connection_apply_of_error {record : ChangeRecord} {error : DirectoryError}
    (h : d.apply record = .error error) :
    Directory.connection.apply d record = (.error (.directory error), d) := by
  simp only [Directory.connection, h]

/-- The directory is the one to which the accepted records lead when they are applied one after the
other, as if there were no other items. -/
lemma Loads.takes (h : Loads ignoreErrors d items records last) :
    Takes Directory.connection d records last := by
  induction h with
  | ended => exact .nil _
  | accepted _ happly _ ih => exact .cons (connection_apply_of_ok happly) ih
  | rejected _ _ _ _ ih => exact ih
  | unreadable _ _ _ _ ih => exact ih

/-- Items are got over up to the end, or up to one at which the load fails. -/
theorem loads_or_fails (ignoreErrors : Bool) (d : Directory) (items : List Item) :
    (∃ records last, Loads ignoreErrors d items records last) ∨
      ∃ failure, Fails ignoreErrors d items failure := by
  induction items generalizing d with
  | nil => exact .inl ⟨[], d, .ended⟩
  | cons item rest ih =>
    -- if the item is got over, the items behind it decide
    have hgo : ∀ {next : Directory} (record? : Option ChangeRecord),
        (∀ {items records last}, Loads ignoreErrors next items records last →
          Loads ignoreErrors d (item :: items) (record?.toList ++ records) last) →
        (∃ records last, Loads ignoreErrors d (item :: rest) records last) ∨
          ∃ failure, Fails ignoreErrors d (item :: rest) failure := by
      intro next record? hover
      rcases ih next with ⟨records, last, hrest⟩ |
        ⟨failure, before, item', unread, records, last, rfl, hbefore, hfails⟩
      · exact .inl ⟨_, last, hover hrest⟩
      · exact .inr ⟨failure, item :: before, item', unread, _, last, rfl, hover hbefore, hfails⟩
    have hhere : ∀ {failure}, FailsAt ignoreErrors d item failure →
        ∃ failure, Fails ignoreErrors d (item :: rest) failure := by
      intro failure hfails
      exact ⟨failure, [], item, rest, [], d, rfl, .ended, hfails⟩
    cases hread : item.outcome with
    | error e =>
      cases e with
      | stream e => exact .inr (hhere (.streamFailed hread))
      | parse e =>
        by_cases hover : e.mayContinue = true ∧ ignoreErrors = true
        · exact hgo none (.unreadable hread hover.1 hover.2)
        · rw [not_and_or, Bool.not_eq_true, Bool.not_eq_true] at hover
          exact .inr (hhere (.unreadable hread hover))
    | ok record =>
      cases happly : d.apply record with
      | ok next => exact hgo (some record) (.accepted hread happly)
      | error e =>
        by_cases hignore : ignoreErrors = true
        · exact hgo none (.rejected hread happly hignore)
        · exact .inr (hhere (.rejected hread happly (Bool.not_eq_true _ ▸ hignore)))

variable {options : LoadOptions} {p : Progress}

/-- A load that nobody cancels goes on behind items that are got over, with the directory behind
them. -/
lemma Loads.exists_turns (h : Loads options.ignoreErrors d items records last)
    (hoptions : ∀ p, options.cancelled p = false) (p : Progress) :
    ∃ turns p', ∀ {rest turns' stop last'},
      Course Directory.connection options p' last rest turns' stop last' →
        Course Directory.connection options p d (items ++ rest) (turns ++ turns') stop last' := by
  induction h generalizing p with
  | ended => exact ⟨[], p, id⟩
  | @accepted d next _ item _ record _ hread happly _ ih =>
    obtain ⟨turns, p', hrest⟩ := ih (p.ask item).apply
    exact ⟨.accepted item record :: turns, p', fun h => .turn
      (.accepted (hoptions _) hread (hoptions _) (connection_apply_of_ok happly)) (hrest h)⟩
  | @rejected d _ item _ record _ error hread happly hignore _ ih =>
    obtain ⟨turns, p', hrest⟩ := ih (p.ask item).apply
    exact ⟨.rejected item record error :: turns, p', fun h => .turn
      (.rejected (hoptions _) hread (hoptions _) (connection_apply_of_error happly) hignore)
      (hrest h)⟩
  | @unreadable d _ item _ _ error hread hmay hignore _ ih =>
    obtain ⟨turns, p', hrest⟩ := ih (p.ask item)
    exact ⟨.unreadable item error :: turns, p', fun h => .turn
      (.unreadable (hoptions _) hread hmay hignore) (hrest h)⟩

/-- Where all items are got over, the load comes to the end. -/
lemma Loads.exists_course (h : Loads options.ignoreErrors d items records last)
    (hoptions : ∀ p, options.cancelled p = false) (p : Progress) :
    ∃ turns, Course Directory.connection options p d items turns .ended last := by
  obtain ⟨turns, p', hgo⟩ := h.exists_turns hoptions p
  have hcourse := hgo (.stop (.ended (hoptions p')))
  rw [List.append_nil] at hcourse
  exact ⟨_, hcourse⟩

/-- An item at which a load fails stops it with that failure, whatever stands behind. -/
lemma FailsAt.exists_stops (h : FailsAt options.ignoreErrors d item failure)
    (hoptions : ∀ p, options.cancelled p = false) (p : Progress) (unread : List Item) :
    ∃ stop, Stops Directory.connection options p d (item :: unread) stop d ∧
      stop.failure? = some failure := by
  cases h with
  | streamFailed hread => exact ⟨_, .streamFailed (hoptions p) hread, rfl⟩
  | unreadable hread hstop => exact ⟨_, .unreadable (hoptions p) hread hstop, rfl⟩
  | rejected hread happly hstop =>
    exact ⟨_, .rejected (hoptions p) hread (hoptions _) (connection_apply_of_error happly) hstop,
      rfl⟩

/-- Where it fails at an item, the load stops with this failure. -/
lemma Fails.exists_course (h : Fails options.ignoreErrors d items failure)
    (hoptions : ∀ p, options.cancelled p = false) (p : Progress) :
    ∃ turns stop last, Course Directory.connection options p d items turns stop last ∧
      stop.failure? = some failure := by
  obtain ⟨before, item, unread, records, last, rfl, hbefore, hfails⟩ := h
  obtain ⟨turns, p', hgo⟩ := hbefore.exists_turns hoptions p
  obtain ⟨stop, hstops, hfailure⟩ := hfails.exists_stops hoptions p' unread
  exact ⟨_, stop, last, hgo (.stop hstops), hfailure⟩

end Loading

end Transfer

/-! ### Writing a file -/

namespace Cli

namespace Files

/-- A file that is written has its new contents, and the others have theirs. -/
lemma lookup_putInto (name other : String) (octets : Bytes) (contents : List (String × Bytes)) :
    (putInto name octets contents).lookup other =
      if other = name then some octets else contents.lookup other := by
  induction contents with
  | nil =>
    by_cases h : other = name
    · simp [putInto, h]
    · simp [putInto, List.lookup_cons, beq_false_of_ne h, h]
  | cons held rest ih =>
    obtain ⟨key, held⟩ := held
    rw [putInto]
    by_cases hkey : key = name
    · subst hkey
      by_cases h : other = key
      · simp [h]
      · simp [List.lookup_cons, beq_false_of_ne h, h]
    · by_cases h : other = key
      · subst h
        simp [hkey]
      · rw [if_neg hkey, List.lookup_cons, List.lookup_cons, beq_false_of_ne h, ih]

/-- A file that has been written holds what was written, and the others what they held. -/
lemma lookup_of_write? {files files' : Files} {path name : String} {octets : Bytes}
    (h : files.write? path octets = some files') (hplace : place path = .file name)
    (other : String) :
    files'.contents.lookup other =
      if other = name then some octets else files.contents.lookup other := by
  simp only [write?, hplace, Option.some.injEq] at h
  rw [← h, put, lookup_putInto]

end Files

/-! ### Conversions -/

namespace ConvertArguments

/-- The load of a conversion fails, because the reader cannot be opened or at some item. -/
def LoadFails (a : ConvertArguments) (source : Source) (failure : Failure) : Prop :=
  match a.inputFormat.open? source with
  | .error error => failure = error.toFailure
  | .ok feed => Transfer.Fails a.ignoreErrors .empty feed.items failure

/-- The load of a conversion gets to the end of its input: it has accepted these records, which have
led to that directory. -/
def LoadsAs (a : ConvertArguments) (source : Source) (records : List ChangeRecord)
    (d : Directory) : Prop :=
  ∃ feed, a.inputFormat.open? source = .ok feed ∧
    Transfer.Loads a.ignoreErrors .empty feed.items records d

section

variable {a : ConvertArguments} {source : Source} {records : List ChangeRecord} {d : Directory}
  {failure : Failure}

/-- A conversion whose load fails has the failure of the load. -/
lemma load_of_loadFails (h : a.LoadFails source failure) :
    a.load source = .error (.failed failure) := by
  unfold LoadFails at h
  split at h
  · next error hopen =>
    simp only [load, Transfer.load, hopen, Transfer.conclude_strict_some, h]
  · next feed hopen =>
    let options : Transfer.LoadOptions := { ignoreErrors := a.ignoreErrors, mode := .strict }
    have hfails : Transfer.Fails options.ignoreErrors .empty feed.items failure := h
    obtain ⟨turns, stop, last, hcourse, hfailure⟩ :=
      hfails.exists_course (fun _ => rfl) { octets := feed.startPosition }
    rw [load, hcourse.load_eq hopen]
    simp only [Transfer.courseReport, hfailure, options, Transfer.conclude_strict_some]

/-- A conversion whose load gets over all items goes on with the directory that they led to. -/
lemma load_of_loadsAs (h : a.LoadsAs source records d) : a.load source = .ok d := by
  obtain ⟨feed, hopen, hloads⟩ := h
  let options : Transfer.LoadOptions := { ignoreErrors := a.ignoreErrors, mode := .strict }
  have hloads : Transfer.Loads options.ignoreErrors .empty feed.items records d := hloads
  obtain ⟨turns, hcourse⟩ :=
    hloads.exists_course (fun _ => rfl) { octets := feed.startPosition }
  rw [load, hcourse.load_eq hopen]
  rfl

/-- The load of a conversion fails or gets to the end. -/
lemma loadFails_or_loadsAs (a : ConvertArguments) (source : Source) :
    (∃ failure, a.LoadFails source failure) ∨ ∃ records d, a.LoadsAs source records d := by
  cases hopen : a.inputFormat.open? source with
  | error error => exact .inl ⟨error.toFailure, by simp only [LoadFails, hopen]⟩
  | ok feed =>
    rcases Transfer.loads_or_fails a.ignoreErrors .empty feed.items with
      ⟨records, d, hloads⟩ | ⟨failure, hfails⟩
    · exact .inr ⟨records, d, feed, hopen, hloads⟩
    · exact .inl ⟨failure, by simpa only [LoadFails, hopen] using hfails⟩

end

/-- The dump of a conversion fails if the search does. -/
lemma snd_dump_eq_none_iff (a : ConvertArguments) (d : Directory) :
    (a.dump d).2 = none ↔ (d.search ⟨a.base, a.filter, .subtree⟩).code.isSuccess = true := by
  have hsearch : Directory.connection.search d ⟨a.base, a.filter, .subtree⟩ = (.ok _, d) := rfl
  have hoptions : ∀ n, ({ mode := .strict } : Transfer.DumpOptions).cancelled n = false :=
    fun _ => rfl
  have hdump := (Transfer.dump_of_answer (o := ⟨Sink.boundless, (), [], 0⟩) hsearch
    Sink.reliable_boundless a.outputFormat hoptions).1
  rw [dump]
  cases hsuccess : (d.search ⟨a.base, a.filter, .subtree⟩).code.isSuccess with
  | true =>
    simp only [Transfer.searchFailure?, hsuccess, if_true, Transfer.conclude_none] at hdump
    simp only [hdump]
  | false =>
    simp only [Transfer.searchFailure?, hsuccess, Bool.false_eq_true, if_false,
      Transfer.conclude_strict_some] at hdump
    simp [hdump]

/-- The output of a conversion comes behind its load.  The load fails or gets to the end.  If it
fails, the conversion fails with it; every file is what it was, and nothing is written.  If it gets
to the end, the accepted records lead from the empty directory to one that is dumped, and where the
output can be opened, it holds what this dump leaves, and every other file is what it was.  Then the
conversion succeeds if and only if the search does. -/
theorem run_of_open? (a : ConvertArguments) {files : Files} {source : Source}
    (hopen : files.open? a.input = some source) :
    ((∃ failure, a.LoadFails source failure) ∨ ∃ records d, a.LoadsAs source records d) ∧
      (∀ failure, a.LoadFails source failure →
        a.run files = { files, output := [], failure := some (.failed failure) }) ∧
      ∀ records d, a.LoadsAs source records d →
        let dumped := Transfer.dump Directory.connection d a.outputFormat a.base a.filter
          ⟨Sink.boundless, (), [], 0⟩ { mode := .strict }
        let succeeds := (d.search ⟨a.base, a.filter, .subtree⟩).code.isSuccess = true
        Transfer.Takes Directory.connection .empty records d ∧
          (a.output = none →
            (a.run files).files = files ∧ (a.run files).output = dumped.output.written ∧
              ((a.run files).failure = none ↔ succeeds)) ∧
          ∀ path files', a.output = some path →
            files.write? path dumped.output.written = some files' →
            (a.run files).files = files' ∧ (a.run files).output = [] ∧
              ((a.run files).failure = none ↔ succeeds) ∧
              ∀ name, Files.place path = .file name → ∀ other,
                files'.contents.lookup other =
                  if other = name then some dumped.output.written
                  else files.contents.lookup other := by
  refine ⟨a.loadFails_or_loadsAs source, ?_, ?_⟩
  · intro failure hfails
    simp only [run, hopen, load_of_loadFails hfails]
  · intro records d hloads dumped succeeds
    have hrun : a.run files = a.finish files d := by
      simp only [run, hopen, load_of_loadsAs hloads]
    have hwritten : (a.dump d).1 = dumped.output.written := by
      rw [dump]
      split <;> rfl
    have hfailure : (a.dump d).2 = none ↔ succeeds := a.snd_dump_eq_none_iff d
    obtain ⟨feed, -, hitems⟩ := hloads
    refine ⟨hitems.takes, ?_, ?_⟩
    · intro houtput
      rw [hrun, finish, houtput]
      exact ⟨rfl, hwritten, hfailure⟩
    · intro path files' houtput hwrite
      have hfinish : a.finish files d = { files := files', failure := (a.dump d).2 } := by
        simp only [finish, houtput, hwritten, hwrite]
      rw [hrun, hfinish]
      exact ⟨rfl, rfl, hfailure, fun name hplace => Files.lookup_of_write? hwrite hplace⟩

/-- Of two records the name of the first cannot be decoded.  If errors are not ignored, the file for
the output keeps what it held; if they are, it holds the entry of the second. -/
theorem run_of_open?_garbledName :
    let garbled : Bytes := [0x64, 0x6E, 0x3A, 0x3A, 0x20, 0x2A, 0x0A, 0x0A]
    let entry : Bytes :=
      [0x64, 0x6E, 0x3A, 0x20, 0x64, 0x63, 0x3D, 0x62, 0x0A, 0x64, 0x63, 0x3A, 0x20, 0x62, 0x0A]
    let files : Files := ⟨[("in.ldif", garbled ++ entry), ("out.ldif", [0x61])]⟩
    let arguments (ignoreErrors : Bool) : ConvertArguments :=
      ⟨none, none, "", "(objectclass=*)", ignoreErrors, "in.ldif", some "out.ldif"⟩
    (arguments false).run files =
        ⟨files, [], some (.failed (.parse (.recoverable .invalidBase64 (.line 1))))⟩ ∧
      ((arguments true).run files).failure = none ∧
      ((arguments true).run files).files.contents.lookup "out.ldif" = some entry := by
  intro garbled entry files arguments
  let source : Source := { bytes := garbled ++ entry }
  let record : ChangeRecord :=
    .add ⟨"dc=b", [⟨"dc", [[0x62]], by decide, by decide⟩], by decide, by decide⟩
  let d : Directory := Directory.empty.after [record]
  obtain ⟨first, second, hitems, hfirst, hsecond⟩ : ∃ first second : Item,
      (Ldif.feed source).items = [first, second] ∧
        first.outcome = .error (.parse (.recoverable .invalidBase64 (.line 1))) ∧
        second.outcome = .ok record :=
    ⟨_, _, rfl, rfl, rfl⟩
  have hopen : files.open? "in.ldif" = some source := by decide +kernel
  have hldif : ∀ ignoreErrors, (arguments ignoreErrors).inputFormat.open? source =
      .ok (Ldif.feed source) := by
    have hformat : Format.ofPath "in.ldif" = .ldif := by decide +kernel
    intro ignoreErrors
    change (Format.ofPath "in.ldif").open? source = _
    rw [hformat]
    rfl
  have happly : Directory.empty.apply record = .ok d := by decide +kernel
  -- without `--ignore-errors` the load fails, with it the record behind the garbled one is loaded
  obtain ⟨-, hfails, -⟩ := run_of_open? (arguments false) hopen
  obtain ⟨-, -, hgets⟩ := run_of_open? (arguments true) hopen
  have hfailing : (arguments false).LoadFails source
      (.parse (.recoverable .invalidBase64 (.line 1))) := by
    rw [LoadFails, hldif]
    exact ⟨[], first, [second], [], .empty, hitems, .ended, .unreadable hfirst (.inr rfl)⟩
  have hgetting : (arguments true).LoadsAs source [record] d := by
    refine ⟨_, hldif true, ?_⟩
    rw [hitems]
    exact .unreadable hfirst rfl rfl (.accepted hsecond happly .ended)
  obtain ⟨-, -, hwrites⟩ := hgets [record] d hgetting
  have hplace : Files.place "out.ldif" = .file "out.ldif" := by decide +kernel
  obtain ⟨hfiles, -, hfailure, hlookup⟩ :=
    hwrites "out.ldif" (files.put "out.ldif" _) rfl (by rw [Files.write?, hplace])
  refine ⟨hfails _ hfailing, hfailure.2 (by decide +kernel), ?_⟩
  rw [hfiles, hlookup "out.ldif" hplace, if_pos rfl]
  decide +kernel

end ConvertArguments

end Cli

end DirectoryExchange

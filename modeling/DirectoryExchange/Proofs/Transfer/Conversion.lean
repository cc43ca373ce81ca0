import DirectoryExchange.Proofs.Directory.Reload
import DirectoryExchange.Proofs.Dsml.RoundTrip
import DirectoryExchange.Proofs.Ldif.RoundTrip

/-!
# Conversion through a directory

A directory that is dumped and loaded into an empty one comes back as it was, as far as the format
carries its entries, and its document is the same from then on (`load_dump`).
-/

namespace DirectoryExchange

namespace Format

/-- What the format carries of an entry. -/
def carried : Format → Entry → Entry
  | ldif, e => e
  | dsml, e => e.objectClassFirst

/-- An entry keeps its name in either format. -/
lemma dn_carried (format : Format) (e : Entry) : (format.carried e).dn = e.dn := by
  cases format <;> rfl

/-- Whether the format can carry the name of an attribute. -/
def Carries (format : Format) (name : String) : Prop :=
  format = ldif → Ldif.Carriable name ∧ '\r' ∉ name.toList

/-- A document is read as records that add what the format carries of its entries. -/
theorem outcomes_open?_render (format : Format) {entries : List Entry}
    (h : ∀ e ∈ entries, ∀ a ∈ e.attributes, format.Carries a.name) (portion : Option Nat) :
    ∃ feed, format.open? { bytes := format.render entries, portion } = .ok feed ∧
      feed.items.map (·.outcome) = entries.map fun e => .ok (.add (format.carried e)) := by
  cases format with
  | ldif =>
    have hnames : ∀ e ∈ entries, Ldif.CarriableEntry e := fun e he a ha => (h e he a ha rfl).1
    have hcr : ∀ e ∈ entries, ∀ a ∈ e.attributes, '\r' ∉ a.name.toList :=
      fun e he a ha => (h e he a ha rfl).2
    exact ⟨_, rfl, Ldif.outcomes_feed_render hnames hcr portion⟩
  | dsml => exact Dsml.outcomes_open?_render entries portion

/-- An entry is written as what the format carries of it. -/
lemma renderNext_carried (format : Format) (written : Nat) (e : Entry) :
    format.renderNext written (format.carried e) = format.renderNext written e := by
  cases format with
  | ldif => rfl
  | dsml =>
    change Dsml.renderEntry e.objectClassFirst = Dsml.renderEntry e
    rw [Dsml.renderEntry, Dsml.renderEntry, Dsml.entryLines, Dsml.entryLines,
      Entry.objectClasses_objectClassFirst, Entry.filter_objectClassFirst]
    rfl

lemma renderFrom_carried (format : Format) (written : Nat) (entries : List Entry) :
    format.renderFrom written (entries.map format.carried) = format.renderFrom written entries := by
  induction entries generalizing written with
  | nil => rfl
  | cons e entries ih =>
    rw [List.map_cons, renderFrom, renderFrom, ih, renderNext_carried]

/-- The document of what a format carries of entries is the document of the entries. -/
theorem render_carried (format : Format) (entries : List Entry) :
    format.render (entries.map format.carried) = format.render entries := by
  rw [render, render, renderFrom_carried]

end Format

namespace Transfer

/-- The filter of a dump of everything. -/
def everything : String := "(objectclass=*)"

/-- A dump of a sound directory writes all its entries. -/
theorem dump_everything {d : Directory} (h : d.Sound) {ω : Type} {output : Output ω}
    (houtput : output.sink.Reliable) (format : Format) :
    let report := dump Directory.connection d format "" everything output { mode := .strict }
    report.result = .ok ⟨d.size, true⟩ ∧
      report.output.written = output.written ++ format.render d.entries := by
  intro report
  have hsearch : Directory.connection.search d ⟨"", everything, .subtree⟩ =
      (.ok (.found d.entries), d) := by
    change (Except.ok (d.search ⟨"", everything, .subtree⟩), d) = _
    rw [everything, Directory.search_everything h]
  have hsize : d.entries.length = d.size := by
    obtain ⟨placed, hplaced⟩ := h.exists_holds
    rw [hplaced.entries_eq, hplaced.size_eq, List.length_map]
  have hdump : report.result = .ok ⟨d.entries.length, true⟩ ∧ report.output.written = _ :=
    dump_of_reliable hsearch houtput format fun _ => rfl
  rwa [hsize] at hdump

/-- A directory that changes have led to comes through a dump and a load if its entries are where
their names say, none of them below a gap, and the format can carry their attributes. -/
theorem load_dump (records : List ChangeRecord) (format : Format) {ω : Type} (output : Output ω)
    (portion : Option Nat) (closing : Option StreamError) (ignoreErrors : Bool)
    (haddressed : (Directory.empty.after records).Addressed)
    (hgrounded : (Directory.empty.after records).Grounded)
    (hcarries : ∀ e ∈ (Directory.empty.after records).entries, ∀ a ∈ e.attributes,
      format.Carries a.name)
    (houtput : output.sink.Reliable) (hempty : output.written = []) :
    let d := Directory.empty.after records
    let dumped := dump Directory.connection d format "" everything output { mode := .strict }
    let source : Source := { bytes := dumped.output.written, portion }
    let loaded := load Directory.connection .empty ⟨format.open? source, closing⟩
      { mode := .strict, ignoreErrors }
    dumped.result = .ok ⟨d.size, true⟩ ∧ loaded.result = .ok ⟨d.size, 0, true⟩ ∧
      loaded.state.entries = d.entries.map format.carried ∧
      ∀ {ω' : Type} (again : Output ω'), again.sink.Reliable → again.written = [] →
        let dumpedAgain :=
          dump Directory.connection loaded.state format "" everything again { mode := .strict }
        dumpedAgain.result = .ok ⟨d.size, true⟩ ∧
          dumpedAgain.output.written = dumped.output.written := by
  intro d dumped source loaded
  have hsound : d.Sound := Directory.sound_after records
  obtain ⟨placed, hplaced⟩ := hsound.exists_holds
  obtain ⟨hdumped, hwritten⟩ := dump_everything hsound houtput format
  rw [hempty, List.nil_append] at hwritten
  obtain ⟨feed, hopen, houtcomes⟩ := format.outcomes_open?_render hcarries portion
  -- the entries come in the order of their paths, each one behind its parent
  have haddable :=
    Directory.addable_of_grounded hsound haddressed hgrounded hplaced format.dn_carried
  obtain ⟨d', htakes, hd', hsound'⟩ := Directory.takes_adds_empty haddable
  have hitems : feed.items.map (·.outcome) = ((placed.map fun x =>
      (x.1, format.carried x.2)).map fun x => ChangeRecord.add x.2).map .ok := by
    rw [houtcomes, hplaced.entries_eq]
    simp only [List.map_map, Function.comp_def]
  have hopened : format.open? source = .ok feed := by
    rw [← hopen, ← hwritten]
  obtain ⟨hloaded, hstate⟩ : loaded.result = .ok ⟨_, 0, true⟩ ∧ loaded.state = d' :=
    load_of_takes htakes hopened hitems fun _ => rfl
  have hentries : d'.entries = d.entries.map format.carried := by
    rw [hd'.entries_eq, hplaced.entries_eq, List.map_map, List.map_map]
    rfl
  have hsize : d'.size = d.size := by
    rw [hd'.size_eq, hplaced.size_eq, List.length_map]
  refine ⟨hdumped, ?_, ?_, ?_⟩
  · rw [hloaded, hplaced.size_eq, List.length_map, List.length_map]
  · rw [hstate, hentries]
  · intro ω' again hagain hagain' dumpedAgain
    obtain ⟨hresult, hwritten'⟩ := dump_everything hsound' hagain format
    rw [hagain', List.nil_append, hentries, Format.render_carried] at hwritten'
    rw [hsize, ← hstate] at hresult
    rw [← hstate] at hwritten'
    exact ⟨hresult, hwritten'.trans hwritten.symm⟩

/-- A directory with an entry and another below it comes back as it was. -/
theorem load_dump_parent_and_child :
    let parent : Entry := ⟨"dc=b", [⟨"dc", [[0x62]], by decide, by decide⟩], by decide, by decide⟩
    let child : Entry := ⟨"cn=a,dc=b", [⟨"cn", [[0x61]], by decide, by decide⟩,
      ⟨"sn", [[0xFF], []], by decide, by decide⟩], by decide, by decide⟩
    ∃ document, (dump Directory.connection (Directory.empty.after [.add parent, .add child]) .ldif
        "" everything ⟨Sink.boundless, (), [], 0⟩ { mode := .strict }).output.written = document ∧
      (load Directory.connection .empty ⟨Format.ldif.open? { bytes := document }, none⟩
        { mode := .strict }).result = .ok ⟨2, 0, true⟩ ∧
      (load Directory.connection .empty ⟨Format.ldif.open? { bytes := document }, none⟩
        { mode := .strict }).state.entries = [parent, child] := by
  intro parent child
  let d := Directory.empty.after [.add parent, .add child]
  have hd : d.occupied.toList = [([[⟨"dc", [0x62]⟩]], Directory.asStored parent),
      ([[⟨"dc", [0x62]⟩], [⟨"cn", [0x61]⟩]], Directory.asStored child)] := by
    decide +kernel
  have hplaced : d.Holds [([[⟨"dc", [0x62]⟩]], parent),
      ([[⟨"dc", [0x62]⟩], [⟨"cn", [0x61]⟩]], child)] := hd
  have haddressed : d.Addressed := hplaced.addressed_iff.2 (by decide +kernel)
  have hgrounded : d.Grounded := hplaced.grounded_iff.2 (by decide +kernel)
  have hcarries : ∀ e ∈ d.entries, ∀ a ∈ e.attributes, Format.ldif.Carries a.name := by
    have hnames : ∀ e ∈ [parent, child], ∀ a ∈ e.attributes,
        a.name ∈ ["dc", "cn", "sn"] := by
      decide
    rw [hplaced.entries_eq]
    intro e he a ha _
    have hname := hnames e he a ha
    simp only [List.mem_cons, List.not_mem_nil, or_false] at hname
    rcases hname with h | h | h
    · rw [h]
      exact ⟨by constructor <;> decide, by decide⟩
    · rw [h]
      exact ⟨by constructor <;> decide, by decide⟩
    · rw [h]
      exact ⟨by constructor <;> decide, by decide⟩
  have hsize : d.size = 2 := hplaced.size_eq
  have hentries : d.entries = [parent, child] := hplaced.entries_eq
  obtain ⟨-, hloaded, hsame, -⟩ := load_dump [.add parent, .add child] .ldif
    ⟨Sink.boundless, (), [], 0⟩ none none false haddressed hgrounded hcarries
    Sink.reliable_boundless rfl
  refine ⟨_, rfl, hloaded.trans ?_, hsame.trans ?_⟩
  · rw [hsize]
  · rw [hentries]
    rfl

end Transfer

end DirectoryExchange

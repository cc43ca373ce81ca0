import DirectoryExchange.Proofs.Ldif.Names
import DirectoryExchange.Proofs.Ldif.Written
import DirectoryExchange.Proofs.Writer

/-!
# LDIF there and back

Entries written as LDIF are read back exactly if all their names can be carried in lines
(`outcomes_writeDocument_iff`).
-/

namespace DirectoryExchange.Ldif

/-- The document of entries holds their blocks with a blank line between any two. -/
theorem render_eq (entries : List Entry) :
    Format.ldif.render entries = unlines (separatedBlocks wrapColumn (entries.map entryBlock)) := by
  have hfrom : ∀ written rest, written ≠ 0 → Format.ldif.renderFrom written rest =
      unlines (rest.flatMap fun e => [] :: foldedBlock wrapColumn (entryBlock e)) := by
    intro written rest hwritten
    induction rest generalizing written with
    | nil => rfl
    | cons e rest ih =>
      rw [Format.renderFrom, ih _ (Nat.succ_ne_zero _), List.flatMap_cons, unlines_append,
        unlines_cons, Format.renderNext, renderNext, if_neg hwritten, renderEntry_eq]
      rfl
  cases entries with
  | nil => rfl
  | cons e rest =>
    have hfirst : Format.ldif.renderNext 0 e = renderEntry e := rfl
    rw [Format.render, Format.renderFrom, hfirst, hfrom 1 rest Nat.one_ne_zero, renderEntry_eq,
      List.map_cons, separatedBlocks, unlines_append, List.flatMap_map]
    simp [Format.prolog?, Format.epilogue?]

/-- Records that hold the blocks of entries add these entries, and then comes the end. -/
lemma outcomes_feedRecords {source : Source} (hfailure : source.failure = none)
    {entries : List Entry} (hentries : ∀ e ∈ entries, CarriableEntry e) {raws : List RawRecord}
    (hraws : raws.map RawRecord.content =
      entries.map fun e => ((entryBlock e).map Utf8.encode, false))
    (versionAllowed : Bool) (events : List LogEvent) :
    (feedRecords source versionAllowed events raws).items.map (·.outcome) =
      entries.map fun e => .ok (.add e) := by
  induction entries generalizing raws versionAllowed events with
  | nil =>
    obtain rfl := List.map_eq_nil_iff.1 hraws
    simp [feedRecords, hfailure]
  | cons e entries ih =>
    obtain ⟨he, hentries⟩ := List.forall_mem_cons.1 hentries
    obtain ⟨raw, raws, rfl, hraw, hraws⟩ := List.map_eq_cons_iff.1 hraws
    simp only [feedRecords, readRecord_entryBlock he hraw versionAllowed, Feed.items_cons,
      List.map_cons]
    rw [ih hentries hraws]

/-- The document of entries with carriable names is read as records that add them. -/
theorem outcomes_feed_render {entries : List Entry}
    (hentries : ∀ e ∈ entries, CarriableEntry e)
    (hcr : ∀ e ∈ entries, ∀ a ∈ e.attributes, '\r' ∉ a.name.toList) (portion : Option Nat) :
    (feed { bytes := Format.ldif.render entries, portion }).items.map (·.outcome) =
      entries.map fun e => .ok (.add e) := by
  have hblocks : ∀ block ∈ entries.map entryBlock, block ≠ [] ∧ ∀ line ∈ block, Readable line := by
    intro block hblock
    obtain ⟨e, he, rfl⟩ := List.mem_map.1 hblock
    exact ⟨List.cons_ne_nil _ _, readable_of_mem_entryBlock (hentries e he) (hcr e he)⟩
  refine outcomes_feedRecords rfl hentries ?_ true []
  rw [render_eq, content_rawRecords hblocks, List.map_map]
  rfl

/-- On a reliable stream entries can always be written as LDIF, and if no carriage return stands in
a name, they are read back, each by a record of its own and in order, exactly if all names can be
carried in lines. -/
theorem outcomes_writeDocument_iff {ω : Type} (output : Output ω)
    (houtput : output.sink.Reliable) (hempty : output.written = []) {entries : List Entry}
    (hcr : ∀ e ∈ entries, ∀ a ∈ e.attributes, '\r' ∉ a.name.toList) (portion : Option Nat) :
    ∃ w, Writer.writeDocument .ldif output entries = (.ok (), w) ∧
      ((feed { bytes := w.output.written, portion }).items.map (·.outcome) =
          entries.map (fun e => .ok (.add e)) ↔
        ∀ e ∈ entries, ∀ a ∈ e.attributes, Carriable a.name) := by
  obtain ⟨w, hwrite, hwritten⟩ := Writer.writeDocument_of_reliable houtput .ldif entries
  rw [hempty, List.nil_append] at hwritten
  refine ⟨w, hwrite, ?_⟩
  rw [hwritten]
  constructor
  · intro houtcomes e he
    have hmem : Except.ok (.add e) ∈
        (feed { bytes := Format.ldif.render entries, portion }).items.map (·.outcome) := by
      rw [houtcomes]
      exact List.mem_map.2 ⟨e, he, rfl⟩
    obtain ⟨item, hitem, houtcome⟩ := List.mem_map.1 hmem
    exact carriableEntry_of_mem_feed hitem houtcome
  · intro hentries
    exact outcomes_feed_render hentries hcr portion

/-- An entry with a line feed for a value, and an empty value behind it, is read back. -/
theorem outcomes_writeDocument_surname :
    let e : Entry :=
      ⟨"cn=a,dc=b", [⟨"sn", [[0x0A], []], by decide, by decide⟩], by decide, by decide⟩
    ∃ w, Writer.writeDocument .ldif ⟨Sink.boundless, (), [], 0⟩ [e] = (.ok (), w) ∧
      (feed { bytes := w.output.written }).items.map (·.outcome) = [.ok (.add e)] := by
  intro e
  have hcr : ∀ f ∈ [e], ∀ a ∈ f.attributes, '\r' ∉ a.name.toList := by decide
  obtain ⟨w, hwrite, hread⟩ := outcomes_writeDocument_iff
    ⟨Sink.boundless, (), [], 0⟩ Sink.reliable_boundless rfl hcr none
  have hcarriable : ∀ f ∈ [e], ∀ a ∈ f.attributes, Carriable a.name := by
    intro f hf a ha
    obtain rfl := List.mem_singleton.1 hf
    obtain rfl := List.mem_singleton.1 ha
    constructor <;> decide
  exact ⟨w, hwrite, hread.2 hcarriable⟩

end DirectoryExchange.Ldif

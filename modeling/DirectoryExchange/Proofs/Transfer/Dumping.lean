import DirectoryExchange.Proofs.Transfer.Conversion
import DirectoryExchange.Proofs.Transfer.Printing

/-!
# What a dump leaves in its output

What was printed and how the writer was closed decide the answer of a dump, its account, its calls
in order, what is told and the octets that it leaves (`dump_document`).
-/

namespace DirectoryExchange.Transfer

/-- If the prolog cannot be written, the directory is not searched and nothing is left in the
output.  Else the directory is searched once, the entries found are printed by the rules and the
writer is closed by the rules, once and at the end, whatever happened before; the report is read off
that.  What is left in the output is the prolog, the entries written, which are the first ones of
those found, and the epilogue if its write did not fail.  If it did not, and the format can carry
the names of the attributes, the octets are read as those entries again. -/
theorem dump_document (connection : Connection σ) (state : σ) (format : Format)
    (base filter : String) (output : Output ω) (options : DumpOptions) :
    let request : SearchRequest := ⟨base, filter, .subtree⟩
    let answer := (connection.search state request).1
    match Writer.writeOptional output format.prolog? with
    | (.error e, o) =>
      dump connection state format base filter output options =
          ⟨conclude options.mode (some (.stream e)) {}, state, o, [.create],
            [.error "Could not create and initialise the writer"]⟩ ∧
        o.written = output.written
    | (.ok _, o) =>
      ∃ written halt middle whole closing last,
        Prints options format o 0 (entriesFound answer) written halt middle ∧
        (∀ written' halt' middle', Prints options format o 0 (entriesFound answer) written' halt'
          middle' → written' = written ∧ halt' = halt ∧ middle' = middle) ∧
        Closes format middle whole closing last ∧
        (∀ whole' closing' last', Closes format middle whole' closing' last' →
          whole' = whole ∧ closing' = closing ∧ last' = last) ∧
        dump connection state format base filter output options =
          dumpReport options.mode request answer (connection.search state request).2 written halt
            closing last ∧
        written <+: entriesFound answer ∧
        last.written = output.written ++ dumpDocument format written whole ∧
        (format = .ldif → whole = true) ∧
        (whole = true →
          (∀ e ∈ entriesFound answer, ∀ a ∈ e.attributes, format.Carries a.name) →
          ∀ portion, ∃ feed,
            format.open? { bytes := dumpDocument format written whole, portion } = .ok feed ∧
            feed.items.map (·.outcome) =
              written.map fun e => .ok (.add (format.carried e))) := by
  intro request answer
  rcases hprolog : Writer.writeOptional output format.prolog? with ⟨e | ⟨⟩, o⟩
  · refine ⟨by simp only [dump, Writer.create, hprolog], ?_⟩
    simpa [Except.isOk, Except.toBool] using written_writeOptional hprolog
  · obtain ⟨written, halt, middle, hprints⟩ :=
      exists_prints options format o 0 (entriesFound answer)
    obtain ⟨whole, closing, last, hcloses⟩ := exists_closes format middle
    refine ⟨written, halt, middle, whole, closing, last, hprints, fun _ _ _ => hprints.unique,
      hcloses, fun _ _ _ => hcloses.unique, dump_eq hprolog rfl hprints hcloses, hprints.isPrefix,
      ?_, ?_, ?_⟩
    · rw [hcloses.written_eq, hprints.written_eq, written_writeOptional hprolog, dumpDocument]
      simp [Except.isOk, Except.toBool]
    · rintro rfl
      exact hcloses.whole_of_ldif
    · rintro rfl hnames portion
      exact format.outcomes_open?_render
        (fun e he => hnames e (hprints.isPrefix.subset he)) portion

/-- The second of two entries is refused, and the document holds the first. -/
theorem dump_document_secondRefused :
    let first : Entry := ⟨"b", [⟨"a", [[0x63]], by decide, by decide⟩], by decide, by decide⟩
    let second : Entry := ⟨"d", [⟨"a", [[0x65]], by decide, by decide⟩], by decide, by decide⟩
    let connection : Connection Unit :=
      ⟨fun _ _ => (.ok (), ()), fun _ _ => (.ok (.found [first, second]), ())⟩
    let output : Output Nat := ⟨Sink.bounded (some 15) ⟨"full"⟩ none, 0, [], 0⟩
    let report := dump connection () .ldif "b" everything output {}
    report.result = .ok ⟨1, false⟩ ∧ ∃ feed,
      Format.ldif.open? { bytes := report.output.written } = .ok feed ∧
      feed.items.map (·.outcome) = [.ok (.add first)] := by
  intro first second connection output report
  let octets : Bytes := [0x64, 0x6E, 0x3A, 0x20, 0x62, 0x0A, 0x61, 0x3A, 0x20, 0x63, 0x0A]
  have hfirst : output.write (Format.ldif.renderNext 0 first) =
      (.ok (), ⟨output.sink, 11, octets, 1⟩) := by
    have hoctets : Format.ldif.renderNext 0 first = octets := by decide +kernel
    rw [hoctets]
    rfl
  have hsecond : (⟨output.sink, 11, octets, 1⟩ : Output Nat).write
      (Format.ldif.renderNext 1 second) = (.error ⟨"full"⟩, ⟨output.sink, 11, octets, 1⟩) := by
    have hoctets : Format.ldif.renderNext 1 second =
        0x0A :: [0x64, 0x6E, 0x3A, 0x20, 0x64, 0x0A, 0x61, 0x3A, 0x20, 0x65, 0x0A] := by
      decide +kernel
    rw [hoctets]
    rfl
  obtain ⟨written, halt, middle, whole, closing, last, -, hunique, hcloses, -, hreport, -, hwritten,
    hwhole, hread⟩ := dump_document connection () .ldif "b" everything output {}
  obtain ⟨rfl, rfl, rfl⟩ := hunique [first] (.refused second ⟨"full"⟩) _
    (.printed rfl hfirst (.refused rfl hsecond))
  have hnames : ∀ e ∈ [first, second], ∀ a ∈ e.attributes, Format.ldif.Carries a.name := by
    have hname : ∀ e ∈ [first, second], ∀ a ∈ e.attributes, a.name = "a" := by decide
    intro e he a ha _
    rw [hname e he a ha]
    exact ⟨by constructor <;> decide, by decide⟩
  obtain ⟨feed, hopen, houtcomes⟩ := hread (hwhole rfl) hnames none
  have hresult : report.result = .ok ⟨1, false⟩ ∧ report.output = last := by
    have hreport' : report = _ := hreport
    rw [hreport']
    exact ⟨rfl, rfl⟩
  refine ⟨hresult.1, feed, ?_, houtcomes⟩
  rw [hresult.2, hwritten]
  change Format.ldif.open? { bytes := [] ++ _ } = _
  rw [List.nil_append, hopen]

end DirectoryExchange.Transfer

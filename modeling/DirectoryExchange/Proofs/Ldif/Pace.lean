import DirectoryExchange.Proofs.Reader

/-!
# Reading LDIF comes on

Every line ends behind the one before it, and a record with the blank line behind it or with the
source, so each is taken from the stream before its item is given: no item that is given lies where
the one before it was (`advances_feed`).
-/

namespace DirectoryExchange.Ldif

/-- Lines end one behind the other. -/
lemma ascends_countLines (number position : Nat) (lines : List Bytes) :
    Ascends (position + (unlines lines).length) position
      ((countLines number position lines).map (·.position)) := by
  induction lines generalizing number position with
  | nil => exact Nat.le_refl _
  | cons line lines ih =>
    have hlast : position + line.length + 1 + (unlines lines).length =
        position + (unlines (line :: lines)).length := by
      rw [unlines_cons, List.length_append, List.length_cons]
      omega
    have hrest := ih (number + 1) (position + line.length + 1)
    rw [hlast] at hrest
    have hline : position < position + line.length + 1 := by omega
    exact ⟨hline, hrest⟩

/-- A line that no line feed ends is not empty, and so it ends behind the others. -/
lemma ascends_physicalLines (source : Source) :
    Ascends source.bytes.length 0 ((physicalLines source).map (·.position)) := by
  have hlength : (unlines (cutLines source.bytes).1).length + (cutLines source.bytes).2.length =
      source.bytes.length := by
    rw [← List.length_append, unlines_cutLines]
  have hlines := ascends_countLines 0 0 (cutLines source.bytes).1
  rw [Nat.zero_add] at hlines
  rw [physicalLines]
  split
  next lines tail hcut =>
  rw [hcut] at hlength hlines
  simp only at hlength hlines ⊢
  split
  · exact hlines.mono (by omega)
  · next h =>
    rw [not_or] at h
    have htail := List.length_pos_iff.2 h.1
    rw [List.map_append]
    exact hlines.concat (by omega)

/-- Records end one behind the other, where `q` is the end of the last one, and what is gathered has
been taken since, up to `p`. -/
lemma ascends_gather {length q p : Nat} {final : Option Nat} (hfinal : ∀ n ∈ final, n = length)
    {g : Gathering} {lines : List PhysicalLine}
    (hlines : Ascends length p (lines.map (·.position))) (hqp : q ≤ p)
    (hg : g.isEmpty = false → q < p) :
    Ascends length q ((gather final g lines).map (·.position)) := by
  induction lines generalizing g q p with
  | nil =>
    have hp : p ≤ length := hlines
    cases final with
    | none => exact Nat.le_trans hqp hp
    | some n =>
      obtain rfl := hfinal n rfl
      rw [gather]
      split
      · exact Nat.le_trans hqp hp
      · next hempty =>
        exact ⟨Nat.lt_of_lt_of_le (hg (Bool.eq_false_iff.2 hempty)) hp, Nat.le_refl _⟩
  | cons line lines ih =>
    obtain ⟨hline, hlines⟩ : p < line.position ∧ _ := hlines
    have hq := Nat.lt_of_le_of_lt hqp hline
    rw [gather]
    split
    · split
      · next hempty => exact ih hlines (Nat.le_of_lt hq) fun _ => hq
      · exact ⟨hq, ih hlines (Nat.le_refl _) fun h => absurd h.symm Bool.false_ne_true⟩
    · exact ih hlines (Nat.le_of_lt hq) fun _ => hq

/-- Records are taken one behind the other. -/
lemma ascends_rawRecords (source : Source) :
    Ascends source.bytes.length 0 ((rawRecords source).map (·.position)) := by
  refine ascends_gather ?_ (ascends_physicalLines source) (Nat.le_refl 0) nofun
  intro n hn
  split at hn
  · exact absurd hn (Option.not_mem_none n)
  · exact (Option.some.inj hn).symm

/-- What is read of records comes on as they do. -/
lemma advances_feedRecords (source : Source) {p : Nat} {raws : List RawRecord}
    (h : Ascends source.bytes.length p (raws.map (·.position))) (versionAllowed : Bool)
    (events : List LogEvent) :
    Advances source.bytes.length p (feedRecords source versionAllowed events raws).items
      (feedRecords source versionAllowed events raws).endPosition := by
  induction raws generalizing p versionAllowed events with
  | nil =>
    have hp : p ≤ source.bytes.length := h
    rw [feedRecords]
    split
    · exact .stopped rfl hp (Nat.le_refl _)
    · exact .ended hp (Nat.le_refl _)
  | cons raw raws ih =>
    obtain ⟨hraw, hraws⟩ : p < raw.position ∧ _ := h
    rw [feedRecords]
    split
    · exact ih (hraws.of_le (Nat.le_of_lt hraw)) false _
    · exact .given rfl hraw (ih hraws false [])
    · next e told _ =>
      simp only
      split
      · next hmay =>
        refine .given ?_ hraw (ih hraws false [])
        simp [isFinal, ReadError.mayContinue, hmay]
      · next hmay =>
        refine .stopped ?_ (Nat.le_of_lt hraw) hraws.le
        simp [isFinal, ReadError.mayContinue, hmay]

/-- What is read of a source comes on, whatever it is and wherever its stream fails. -/
theorem advances_feed (source : Source) :
    Advances source.bytes.length 0 (feed source).items (feed source).endPosition :=
  advances_feedRecords source (ascends_rawRecords source) true []

/-- Nothing is taken before the first record is asked for. -/
lemma startPosition_feedRecords (source : Source) (versionAllowed : Bool)
    (events : List LogEvent) (raws : List RawRecord) :
    (feedRecords source versionAllowed events raws).startPosition = 0 := by
  induction raws generalizing versionAllowed events with
  | nil =>
    rw [feedRecords]
    split <;> rfl
  | cons raw raws ih =>
    rw [feedRecords]
    split
    · exact ih _ _
    · exact ih _ _
    · simp only
      split
      · exact ih _ _
      · rfl

end DirectoryExchange.Ldif

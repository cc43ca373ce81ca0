import DirectoryExchange.Ldif.Reader
import DirectoryExchange.Proofs.Ldif.Entry

/-!
# The names that LDIF can give

Whatever the octets of a source are, an entry read from them has carriable names only
(`carriableEntry_of_mem_feed`).  No line that is gathered has a line feed in it or begins like a
comment or a continuation (`Proper`), a name ends at the first colon of its line, and a line named
`dn` gives no value.
-/

namespace DirectoryExchange.Ldif

/-! ### Gathered lines -/

/-- Whether the octets can be a logical line. -/
structure Proper (text : Bytes) : Prop where
  /-- No line ends within it. -/
  lineFeed : Bytes.lineFeed ∉ text
  /-- It begins neither as a comment nor as a continuation. -/
  head : ∃ first rest, text = first :: rest ∧ first ≠ Bytes.space ∧ first ≠ 0x23

/-- No physical line has a line feed in it. -/
lemma lineFeed_not_mem_physicalLines (source : Source) :
    ∀ l ∈ physicalLines source, Bytes.lineFeed ∉ l.text := by
  obtain ⟨hlines, htail⟩ := lineFeed_not_mem_cutLines source.bytes
  have hdrop : ∀ {line : Bytes}, Bytes.lineFeed ∉ line → Bytes.lineFeed ∉ dropReturn line := by
    intro line hline
    unfold dropReturn
    split
    · exact fun h => hline ((List.dropLast_prefix line).mem h)
    · exact hline
  have hcounted : ∀ l ∈ countLines 0 0 (cutLines source.bytes).1, Bytes.lineFeed ∉ l.text := by
    intro l hl
    obtain ⟨line, hline, htext⟩ := text_of_mem_countLines hl
    rw [htext]
    exact hdrop (hlines line hline)
  intro l hl
  unfold physicalLines at hl
  simp only at hl
  split at hl
  · exact hcounted l hl
  · rcases List.mem_append.1 hl with hl | hl
    · exact hcounted l hl
    · rw [List.mem_singleton.1 hl]
      exact hdrop htail

/-- A line taken up leaves proper lines only. -/
lemma proper_take {g : Gathering} (hg : ∀ l ∈ g.newestFirst, Proper l.text) (number : Nat)
    {first : UInt8} {rest : Bytes} (h : Bytes.lineFeed ∉ first :: rest) :
    ∀ l ∈ (g.take number first rest).newestFirst, Proper l.text := by
  unfold Gathering.take
  split
  · exact hg
  next hcomment =>
  split
  · split
    · exact hg
    · split
      · next line older hlines =>
        rw [hlines] at hg
        obtain ⟨hline, holder⟩ := List.forall_mem_cons.1 hg
        refine List.forall_mem_cons.2 ⟨⟨?_, ?_⟩, holder⟩
        · rw [List.mem_append, not_or]
          exact ⟨hline.lineFeed, fun k => h (List.mem_cons_of_mem _ k)⟩
        · obtain ⟨b, more, htext, hb⟩ := hline.head
          exact ⟨b, more ++ rest, by rw [htext, List.cons_append], hb⟩
      · exact hg
  · next hspace =>
    exact List.forall_mem_cons.2 ⟨⟨h, first, rest, rfl, hspace, hcomment⟩, hg⟩

/-- Lines that are gathered of such lines are proper. -/
lemma proper_gather {final : Option Nat} {lines : List PhysicalLine}
    (hlines : ∀ l ∈ lines, Bytes.lineFeed ∉ l.text) {g : Gathering}
    (hg : ∀ l ∈ g.newestFirst, Proper l.text) :
    ∀ raw ∈ gather final g lines, ∀ l ∈ raw.lines, Proper l.text := by
  induction lines generalizing g with
  | nil =>
    intro raw hraw l hl
    unfold gather at hraw
    split at hraw
    · split at hraw
      · exact absurd hraw List.not_mem_nil
      · rw [List.mem_singleton.1 hraw] at hl
        exact hg l (List.mem_reverse.1 hl)
    · exact absurd hraw List.not_mem_nil
  | cons line lines ih =>
    obtain ⟨hline, hlines⟩ := List.forall_mem_cons.1 hlines
    unfold gather
    split
    · split
      · exact ih hlines hg
      · refine List.forall_mem_cons.2 ⟨?_, ih hlines (by simp)⟩
        intro l hl
        exact hg l (List.mem_reverse.1 hl)
    · next first more htext =>
      rw [htext] at hline
      exact ih hlines (proper_take hg _ hline)

/-- The lines of every record are proper. -/
theorem proper_of_mem_rawRecords {source : Source} {raw : RawRecord}
    (hraw : raw ∈ rawRecords source) : ∀ l ∈ raw.lines, Proper l.text :=
  proper_gather (lineFeed_not_mem_physicalLines source) (by simp) raw hraw

/-! ### Names of lines -/

/-- A name that a proper line gives, other than `dn`, can be carried. -/
lemma carriable_of_split {l : LogicalLine} (hl : Proper l.text) {name : String} {value : Bytes}
    (hsplit : l.split = .ok (name, value)) (hdn : l.isNamed "dn" = false) : Carriable name := by
  unfold LogicalLine.split at hsplit
  split at hsplit
  · exact absurd hsplit (by simp)
  next before behind hcut =>
  split at hsplit
  · exact absurd hsplit (by simp)
  next spelling hspelling =>
  split at hsplit
  · exact absurd hsplit (by simp)
  next hne =>
  obtain ⟨read, -, hread⟩ := bind_eq_ok_iff.1 hsplit
  obtain ⟨rfl, rfl⟩ : spelling = name ∧ read = value := by simpa [pure, Except.pure] using hread
  have htext : l.text = Utf8.encode spelling ++ colon :: behind := by
    rw [Utf8.decode?_eq_some_iff.1 hspelling]
    exact Bytes.eq_append_of_cutAt? hcut
  have hcolon : colon ∉ Utf8.encode spelling := by
    rw [Utf8.decode?_eq_some_iff.1 hspelling]
    exact Bytes.not_mem_of_cutAt? hcut
  have hlineFeed : Bytes.lineFeed ∉ Utf8.encode spelling := by
    intro h
    exact hl.lineFeed (htext ▸ List.mem_append_left _ h)
  obtain ⟨first, rest, hfirst, hspace, hcomment⟩ := hl.head
  have hhead : ∀ b : UInt8, b.toNat < 0x80 → first ≠ b →
      spelling.toList.head? ≠ some (Char.ofNat b.toNat) := by
    intro b hb hne h
    obtain ⟨cs, hcs⟩ := List.head?_eq_some_iff.1 h
    rw [htext, Utf8.encode, hcs, Utf8.encodeChars_cons, Utf8.encodeChar_of_lt hb] at hfirst
    exact hne (List.cons.inj hfirst).1.symm
  refine ⟨?_, ?_, hhead _ (by decide) hspace, hhead _ (by decide) hcomment, ?_⟩
  · rwa [Utf8.encode, Utf8.mem_encodeChars_iff (by decide)] at hcolon
  · rwa [Utf8.encode, Utf8.mem_encodeChars_iff (by decide)] at hlineFeed
  · simp only [LogicalLine.isNamed, hcut, hspelling] at hdn
    exact Bool.eq_false_iff.1 hdn

/-- Values that are gathered of proper lines stand under names that can be carried. -/
lemma carriable_of_gatherValues {lines : List LogicalLine} (hlines : ∀ l ∈ lines, Proper l.text)
    {draft gathered : EntryDraft} (hdraft : ∀ g ∈ draft.groups, Carriable g.1)
    (h : gatherValues draft lines = .ok gathered) : ∀ g ∈ gathered.groups, Carriable g.1 := by
  induction lines generalizing draft with
  | nil =>
    obtain rfl := Except.ok.inj h
    exact hdraft
  | cons line lines ih =>
    obtain ⟨hline, hlines⟩ := List.forall_mem_cons.1 hlines
    unfold gatherValues at h
    split at h
    · exact absurd h (by simp)
    · next hdn =>
      obtain ⟨⟨name, value⟩, hsplit, h⟩ := bind_eq_ok_iff.1 h
      have hname := carriable_of_split hline hsplit (Bool.eq_false_iff.2 hdn)
      exact ih hlines (EntryDraft.forall_name_addTo hname hdraft value) h

/-! ### Names of entries -/

/-- What the model accepts is passed on. -/
lemma invalid_eq_ok_iff {α : Type} {location : Location} {result : Except ModelError α} {a : α} :
    invalid location result = .ok a ↔ result = .ok a :=
  mapError_eq_ok_iff

/-- An entry read of proper lines has names that can be carried. -/
lemma carriableEntry_of_readAdd {dn : String} {location : Location} {lines : List LogicalLine}
    (hlines : ∀ l ∈ lines, Proper l.text) {e : Entry}
    (h : readAdd dn location lines = .ok (.add e)) : CarriableEntry e := by
  obtain ⟨draft, hgather, h⟩ := bind_eq_ok_iff.1 h
  obtain ⟨entry, hbuild, h⟩ := bind_eq_ok_iff.1 h
  obtain rfl : entry = e := by simpa [pure, Except.pure] using h
  exact EntryDraft.forall_name_of_build (invalid_eq_ok_iff.1 hbuild)
    (carriable_of_gatherValues hlines (by simp) hgather)

/-- A deletion adds nothing. -/
lemma readDelete_ne_add (dn : String) (location : Location) (lines : List LogicalLine) (e : Entry) :
    readDelete dn location lines ≠ .ok (.add e) := by
  cases lines with
  | nil =>
    rw [readDelete, ne_eq, invalid_eq_ok_iff, ChangeRecord.makeDelete]
    split <;> simp
  | cons line lines => simp [readDelete]

/-- A modification adds nothing. -/
lemma readModify_ne_add (dn : String) (location : Location) (lines : List LogicalLine) (e : Entry) :
    readModify dn location lines ≠ .ok (.add e) := by
  rw [readModify, ne_eq, bind_eq_ok_iff]
  rintro ⟨modifications, -, h⟩
  rw [invalid_eq_ok_iff, ChangeRecord.makeModify] at h
  split at h
  · simp at h
  · split at h <;> simp at h

/-- A rename adds nothing. -/
lemma readRename_ne_add (dn : String) (location : Location) (lines : List LogicalLine) (e : Entry) :
    readRename dn location lines ≠ .ok (.add e) := by
  rw [readRename, ne_eq, bind_eq_ok_iff]
  rintro ⟨draft, -, h⟩
  split at h
  · rw [invalid_eq_ok_iff, ChangeRecord.makeRename] at h
    split at h
    · simp at h
    · split at h
      · simp at h
      · split at h <;> simp at h
  · simp at h

/-- An entry that a record adds has such names, whatever its change type. -/
lemma carriableEntry_of_readChange {dn : String} {location : Location} {lines : List LogicalLine}
    (hlines : ∀ l ∈ lines, Proper l.text) {e : Entry}
    (h : readChange dn location lines = .ok (.add e)) : CarriableEntry e := by
  have hrest : ∀ l ∈ lines.dropWhile (·.isNamed "control"), Proper l.text := fun l hl =>
    hlines l ((List.dropWhile_suffix _).mem hl)
  unfold readChange at h
  split at h
  · exact carriableEntry_of_readAdd (by simp) h
  next line body hbody =>
  rw [hbody] at hrest
  split at h
  · obtain ⟨⟨name, word⟩, -, h⟩ := bind_eq_ok_iff.1 h
    simp only at h
    split at h
    · exact carriableEntry_of_readAdd (List.forall_mem_cons.1 hrest).2 h
    · exact absurd h (readDelete_ne_add _ _ _ e)
    · exact absurd h (readModify_ne_add _ _ _ e)
    · exact absurd h (readRename_ne_add _ _ _ e)
    · exact absurd h (readRename_ne_add _ _ _ e)
    · exact absurd h (by simp)
  · exact carriableEntry_of_readAdd hrest h

lemma carriableEntry_of_readLines {lines : List LogicalLine} (hlines : ∀ l ∈ lines, Proper l.text)
    {e : Entry} (h : readLines lines = .ok (some (.add e))) : CarriableEntry e := by
  cases lines with
  | nil => simp [readLines] at h
  | cons first rest =>
    rw [readLines] at h
    split at h
    · obtain ⟨⟨name, dn⟩, -, h⟩ := bind_eq_ok_iff.1 h
      obtain ⟨record, hrecord, h⟩ := bind_eq_ok_iff.1 h
      obtain rfl : record = .add e := by simpa [pure, Except.pure] using h
      exact carriableEntry_of_readChange (List.forall_mem_cons.1 hlines).2 hrecord
    · simp at h

lemma carriableEntry_of_readRecord {versionAllowed : Bool} {raw : RawRecord}
    (hraw : ∀ l ∈ raw.lines, Proper l.text) {e : Entry} {told : List LogEvent}
    (h : readRecord versionAllowed raw = (.ok (some (.add e)), told)) : CarriableEntry e := by
  unfold readRecord at h
  simp only at h
  split at h
  · simp at h
  split at h
  · next first rest hlines =>
    rw [hlines] at hraw
    split at h
    · split at h
      · split at h
        · next record hread =>
          obtain rfl : record = some (.add e) := Except.ok.inj (Prod.mk.inj h).1
          exact carriableEntry_of_readLines (List.forall_mem_cons.1 hraw).2 hread
        · simp at h
      · simp at h
    · split at h
      · next record hread =>
        obtain rfl : record = some (.add e) := Except.ok.inj (Prod.mk.inj h).1
        exact carriableEntry_of_readLines hraw hread
      · simp at h
  · simp at h

/-- Every entry read of records with proper lines has names that can be carried. -/
lemma carriableEntry_of_mem_feedRecords {source : Source} {versionAllowed : Bool}
    {events : List LogEvent} {raws : List RawRecord}
    (hraws : ∀ raw ∈ raws, ∀ l ∈ raw.lines, Proper l.text) {e : Entry} {item : Item}
    (hitem : item ∈ (feedRecords source versionAllowed events raws).items)
    (h : item.outcome = .ok (.add e)) : CarriableEntry e := by
  induction raws generalizing versionAllowed events with
  | nil =>
    unfold feedRecords at hitem
    split at hitem
    · rw [Feed.items_last, List.mem_singleton] at hitem
      simp [hitem] at h
    · simp at hitem
  | cons raw raws ih =>
    obtain ⟨hraw, hraws⟩ := List.forall_mem_cons.1 hraws
    unfold feedRecords at hitem
    split at hitem
    · exact ih hraws hitem
    · next record told hread =>
      rw [Feed.items_cons, List.mem_cons] at hitem
      rcases hitem with rfl | hitem
      · obtain rfl : record = .add e := by simpa using h
        exact carriableEntry_of_readRecord hraw hread
      · exact ih hraws hitem
    · next error told hread =>
      simp only at hitem
      split at hitem
      · rw [Feed.items_cons, List.mem_cons] at hitem
        rcases hitem with rfl | hitem
        · simp at h
        · exact ih hraws hitem
      · rw [Feed.items_last, List.mem_singleton] at hitem
        simp [hitem] at h

/-- An entry read from any source has carriable names only. -/
theorem carriableEntry_of_mem_feed {source : Source} {e : Entry} {item : Item}
    (hitem : item ∈ (feed source).items) (h : item.outcome = .ok (.add e)) : CarriableEntry e :=
  carriableEntry_of_mem_feedRecords (fun _ hraw => proper_of_mem_rawRecords hraw) hitem h

end DirectoryExchange.Ldif

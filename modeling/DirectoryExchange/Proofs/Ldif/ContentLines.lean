import DirectoryExchange.Proofs.Ldif.ChangeLines
import DirectoryExchange.Proofs.Model.Merge

/-!
# Added entries as lines

An entry is added by a line for each of its values, in order (`SaysContent`).  A value stands on its
line as it is or in base64 (`Carries`), and control lines and a change type may stand in front.
However the lines are cut, the entry that the values are merged to is read of them
(`outcomes_feed_content`).
-/

namespace DirectoryExchange.Ldif

/-! ### What the lines are -/

/-- A line that carries the value behind the name. -/
inductive Carries (name : String) (value : Bytes) : Bytes → Prop
  /-- As it is, behind a space. -/
  | spaced (hlf : Bytes.lineFeed ∉ value) (hcr : Bytes.carriageReturn ∉ value) :
      Carries name value (Utf8.encode name ++ colon :: Bytes.space :: value)
  /-- As it is, right behind the colon, where it must not begin with a mark. -/
  | direct (hlf : Bytes.lineFeed ∉ value) (hcr : Bytes.carriageReturn ∉ value)
      (hfirst : ∀ b ∈ value.head?, b ≠ Bytes.space ∧ b ≠ colon ∧ b ≠ less) :
      Carries name value (Utf8.encode name ++ colon :: value)
  /-- In base64, with any number of spaces on both sides. -/
  | encoded (left right : Nat) :
      Carries name value (Utf8.encode name ++ colon :: colon ::
        (List.replicate left Bytes.space ++
          (Utf8.encode (Base64.encode value) ++ List.replicate right Bytes.space)))

/-- A line that carries the distinguished name. -/
inductive SaysDn (dn : String) (line : Bytes) : Prop
  | intro {spelling : String} (hspells : Spells "dn" spelling)
      (hline : Carries spelling (Utf8.encode dn) line) : SaysDn dn line

/-- A line of the change type by which an entry is added. -/
inductive SaysAdd (line : Bytes) : Prop
  | intro {spelling word : String} (hspells : Spells "changetype" spelling)
      (hword : lowerAscii (Blank.trim word) = "add")
      (hline : Carries spelling (Utf8.encode word) line) : SaysAdd line

/-- The line of the change type, if there is one.  It is left out only where the first value cannot
be taken for a directive. -/
inductive SaysType (pairs : List (String × Bytes)) : List Bytes → Prop
  | without (hfirst : ∀ p ∈ pairs.head?, isDirective p.1 = false) : SaysType pairs []
  | add {line : Bytes} (hline : SaysAdd line) : SaysType pairs [line]

/-- The lines of a record that adds an entry with these values under their names. -/
inductive SaysContent (dn : String) (pairs : List (String × Bytes)) : List Bytes → Prop
  | intro {dnLine : Bytes} {controls type values : List Bytes} (hdn : SaysDn dn dnLine)
      (hcontrols : ∀ line ∈ controls, IsControl line) (htype : SaysType pairs type)
      (hvalues : List.Forall₂ (fun p line => Carries p.1 p.2 line) pairs values) :
      SaysContent dn pairs (dnLine :: (controls ++ (type ++ values)))

/-! ### Single lines -/

section Line

variable {name : String} {value line : Bytes}

/-- No white space is written in base64. -/
lemma not_mem_encode_of_isGap {b : UInt8} (hb : b.toNat < 0x80)
    (hgap : Base64.isGap (Char.ofNat b.toNat) = true) (value : Bytes) :
    b ∉ Utf8.encode (Base64.encode value) := by
  rw [Utf8.encode, Utf8.mem_encodeChars_iff hb, Base64.encode, String.toList_ofList]
  intro hmem
  rw [Base64.isGap_of_mem_encodeChars value _ hmem] at hgap
  exact Bool.false_ne_true hgap

/-- A value in base64 is read back, whatever spaces stand around it. -/
lemma readValue_encoded (location : Location) (value : Bytes) (left right : Nat) :
    readValue location (colon :: (List.replicate left Bytes.space ++
      (Utf8.encode (Base64.encode value) ++ List.replicate right Bytes.space))) = .ok value := by
  have hspace : Bytes.space ∉ Utf8.encode (Base64.encode value) :=
    not_mem_encode_of_isGap (by decide) (by decide) value
  simp only [readValue, if_true, decodeValue, Bytes.trimSpaces_replicate hspace,
    Utf8.decode?_encode, Base64.decode?_encode]

/-- A value that does not begin like something else is read as it stands. -/
lemma readValue_direct (location : Location)
    (h : ∀ b ∈ value.head?, b ≠ Bytes.space ∧ b ≠ colon ∧ b ≠ less) :
    readValue location value = .ok value := by
  cases value with
  | nil => rfl
  | cons b rest =>
    obtain ⟨hspace, hcolon, hless⟩ := h b rfl
    rw [readValue, if_neg hcolon, if_neg hless, if_neg hspace]

/-- Whichever way it is carried, no line ends within the value, and it is read behind the colon. -/
lemma Carries.exists_behind (h : Carries name value line) :
    ∃ behind, line = Utf8.encode name ++ colon :: behind ∧
      Bytes.lineFeed ∉ behind ∧ Bytes.carriageReturn ∉ behind ∧
      ∀ location, readValue location behind = .ok value := by
  cases h with
  | spaced hlf hcr =>
    refine ⟨_, rfl, ?_, ?_, fun location => rfl⟩
    · rw [List.mem_cons, not_or]
      exact ⟨by decide, hlf⟩
    · rw [List.mem_cons, not_or]
      exact ⟨by decide, hcr⟩
  | direct hlf hcr hfirst =>
    exact ⟨_, rfl, hlf, hcr, fun location => readValue_direct location hfirst⟩
  | encoded left right =>
    have hnone : ∀ b : UInt8, b ≠ colon → b ≠ Bytes.space →
        b ∉ Utf8.encode (Base64.encode value) → b ∉ colon :: (List.replicate left Bytes.space ++
          (Utf8.encode (Base64.encode value) ++ List.replicate right Bytes.space)) := by
      intro b hcolon hspace hencoded
      simp only [List.mem_cons, List.mem_append, List.mem_replicate, not_or, not_and]
      exact ⟨hcolon, fun _ => hspace, hencoded, fun _ => hspace⟩
    refine ⟨_, rfl, hnone _ (by decide) (by decide) ?_, hnone _ (by decide) (by decide) ?_,
      fun location => readValue_encoded location value left right⟩
    · exact not_mem_encode_of_isGap (by decide) (by decide) value
    · exact not_mem_encode_of_isGap (by decide) (by decide) value

variable {l : LogicalLine}

/-- A line is cut behind the name. -/
lemma Carries.exists_cutAt? (h : Carries name value line) (htext : l.text = line)
    (hcolon : ':' ∉ name.toList) :
    ∃ behind, Bytes.cutAt? colon l.text = some (Utf8.encode name, behind) ∧
      ∀ location, readValue location behind = .ok value := by
  obtain ⟨behind, hline, -, -, hvalue⟩ := h.exists_behind
  have hmark : colon ∉ Utf8.encode name := by
    rwa [Utf8.encode, Utf8.mem_encodeChars_iff (by decide)]
  exact ⟨behind, by rw [htext, hline, Bytes.cutAt?_append hmark], hvalue⟩

/-- A line that carries a value is named as the name is. -/
lemma Carries.isNamed (h : Carries name value line) (htext : l.text = line)
    (hcolon : ':' ∉ name.toList) (other : String) : l.isNamed other = sameName name other := by
  obtain ⟨behind, hcut, -⟩ := h.exists_cutAt? htext hcolon
  simp only [LogicalLine.isNamed, hcut, Utf8.decode?_encode]

/-- A line gives back the name and the value. -/
theorem Carries.split (h : Carries name value line) (htext : l.text = line)
    (hcolon : ':' ∉ name.toList) (hne : name ≠ "") : l.split = .ok (name, value) := by
  obtain ⟨behind, hcut, hvalue⟩ := h.exists_cutAt? htext hcolon
  simp only [LogicalLine.split, hcut, Utf8.decode?_encode, if_neg hne, hvalue]
  rfl

/-- If the value is a text, the line is split into the name and the text. -/
lemma Carries.splitText {text : String} (h : Carries name (Utf8.encode text) line)
    (htext : l.text = line) (hcolon : ':' ∉ name.toList) (hne : name ≠ "") :
    l.splitText = .ok (name, text) := by
  simp only [LogicalLine.splitText, h.split htext hcolon hne, bind, Except.bind,
    Utf8.decode?_encode]
  rfl

end Line

/-! ### Reading a record -/

section Record

variable {dn : String} {pairs : List (String × Bytes)}

/-- The lines of values give every value to the draft under its name. -/
lemma gatherValues_of_carried (hnames : ∀ p ∈ pairs, Carriable p.1 ∧ p.1 ≠ "")
    {texts : List Bytes} (hvalues : List.Forall₂ (fun p line => Carries p.1 p.2 line) pairs texts)
    {lines : List LogicalLine} (htexts : lines.map (·.text) = texts) (draft : EntryDraft) :
    gatherValues draft lines = .ok (draft.pushPairs pairs) := by
  induction hvalues generalizing lines draft with
  | nil =>
    obtain rfl := List.map_eq_nil_iff.1 htexts
    rfl
  | @cons p text pairs texts hvalue _ ih =>
    obtain ⟨l, lines, rfl, htext, htexts⟩ := List.map_eq_cons_iff.1 htexts
    obtain ⟨⟨hname, hne⟩, hnames⟩ := List.forall_mem_cons.1 hnames
    have hdn : l.isNamed "dn" = false := by
      rw [hvalue.isNamed htext hname.colon]
      exact Bool.eq_false_iff.2 hname.dn
    rw [gatherValues, hdn, if_neg Bool.false_ne_true, hvalue.split htext hname.colon hne]
    exact ih hnames htexts _

variable {e : Entry} (hbuild : (EntryDraft.pushPairs { dn } pairs).build = .ok e)
  (hnames : ∀ p ∈ pairs, Carriable p.1 ∧ p.1 ≠ "")
include hbuild hnames

/-- The entry is read of the lines that carry its values. -/
lemma readAdd_of_carried {texts : List Bytes}
    (hvalues : List.Forall₂ (fun p line => Carries p.1 p.2 line) pairs texts)
    {lines : List LogicalLine} (htexts : lines.map (·.text) = texts) (location : Location) :
    readAdd dn location lines = .ok (.add e) := by
  simp only [readAdd, gatherValues_of_carried hnames hvalues htexts, bind, Except.bind, hbuild,
    invalid]
  rfl

/-- Behind control lines the entry is read, with or without the change type. -/
lemma readChange_of_carried {type values : List Bytes} (htype : SaysType pairs type)
    (hvalues : List.Forall₂ (fun p line => Carries p.1 p.2 line) pairs values)
    {lines : List LogicalLine} (htexts : lines.map (·.text) = type ++ values)
    (location : Location) : readChange dn location lines = .ok (.add e) := by
  -- the lines of the entry stand behind a line for the change type, or directly behind the name
  cases htype with
  | @add line hline =>
    obtain @⟨spelling, word, hspells, hword, hline⟩ := hline
    obtain ⟨l, body, rfl, htext, hbody⟩ := List.map_eq_cons_iff.1 htexts
    have hcolon : ':' ∉ spelling.toList := (hspells.mem_iff (by decide)).not.2 (by decide)
    have hne : spelling ≠ "" := hspells.ne_empty (by decide)
    have hcontrol : l.isNamed "control" = false := by
      rw [hline.isNamed htext hcolon, hspells.sameName]
      decide
    have hchange : l.isNamed "changetype" = true := by
      rw [hline.isNamed htext hcolon, hspells.sameName]
      exact sameName_refl _
    rw [readChange, List.dropWhile_cons_of_neg (by simp [hcontrol])]
    simp only [hchange, if_true, hline.splitText htext hcolon hne, bind, Except.bind, hword]
    exact readAdd_of_carried hbuild hnames hvalues hbody location
  | without hfirst =>
    have hadd := readAdd_of_carried hbuild hnames hvalues htexts location
    cases hvalues with
    | nil =>
      obtain rfl := List.map_eq_nil_iff.1 htexts
      exact hadd
    | @cons p text pairs texts hvalue _ =>
      obtain ⟨l, body, rfl, htext, -⟩ := List.map_eq_cons_iff.1 htexts
      have hcolon := (hnames p List.mem_cons_self).1.colon
      have hdirective := hfirst p rfl
      rw [isDirective, Bool.or_eq_false_iff, ← hvalue.isNamed htext hcolon,
        ← hvalue.isNamed htext hcolon] at hdirective
      rw [readChange, List.dropWhile_cons_of_neg (by simp [hdirective.2])]
      simp only [hdirective.1, if_false, Bool.false_eq_true]
      exact hadd

/-- The entry is read from any lines that say it. -/
theorem readRecord_of_content {raw : RawRecord}
    (hsaid : SaysContent dn pairs (raw.lines.map (·.text))) (horphan : raw.orphan = none)
    (versionAllowed : Bool) : readRecord versionAllowed raw = (.ok (some (.add e)), []) := by
  obtain ⟨lines, orphan, position⟩ := raw
  obtain rfl : orphan = none := horphan
  generalize htexts : lines.map (·.text) = texts at hsaid
  obtain @⟨dnLine, controls, type, values, ⟨hspells, hline⟩, hcontrols, htype, hvalues⟩ := hsaid
  obtain ⟨l, lines, rfl, htext, htexts⟩ := List.map_eq_cons_iff.1 htexts
  obtain ⟨front, back, rfl, hfront, hback⟩ := List.map_eq_append_iff.1 htexts
  have hcolon := (hspells.mem_iff (c := ':') (by decide)).not.2 (by decide)
  have hversion : l.isNamed "version" = false := by
    rw [hline.isNamed htext hcolon, hspells.sameName]
    decide
  have hnamed : l.isNamed "dn" = true := by
    rw [hline.isNamed htext hcolon, hspells.sameName]
    exact sameName_refl _
  simp only [readRecord, hversion, Bool.and_false, Bool.false_eq_true, if_false, readLines, hnamed,
    if_true, hline.splitText htext hcolon (hspells.ne_empty (by decide)), bind, Except.bind,
    readChange_controls hcontrols hfront, readChange_of_carried hbuild hnames htype hvalues hback]
  rfl

end Record

/-! ### Cutting lines -/

/-- Octets that are a line of their own: they are told from a comment and from what goes on with
another line, and no line ends within them. -/
structure Layable (line : Bytes) : Prop where
  /-- The line does not go on with another one. -/
  space : line.head? ≠ some Bytes.space
  /-- The line is no comment. -/
  comment : line.head? ≠ some 0x23
  /-- There is no line feed in it. -/
  lineFeed : Bytes.lineFeed ∉ line
  /-- There is no carriage return in it. -/
  carriageReturn : Bytes.carriageReturn ∉ line

/-- A line that has been cut can be laid out. -/
lemma CutLine.layable (cut : CutLine) : Layable cut.text := by
  have hunbroken : ∀ b, (∀ piece ∈ (cut.first :: cut.rest) :: cut.continued, b ∉ piece) →
      b ∉ cut.text := by
    intro b h hmem
    rw [CutLine.text, ← List.flatten_cons] at hmem
    obtain ⟨piece, hpiece, hmem⟩ := List.mem_flatten.1 hmem
    exact h piece hpiece hmem
  refine ⟨?_, ?_, hunbroken _ fun piece hpiece => (cut.unbroken piece hpiece).1,
    hunbroken _ fun piece hpiece => (cut.unbroken piece hpiece).2⟩
  · exact fun h => cut.not_continuing (Option.some.inj h)
  · exact fun h => cut.not_comment (Option.some.inj h)

/-- Wherever such a line is cut behind its first octet, the pieces are a layout of it. -/
lemma Layable.exists_cutLine {line : Bytes} (h : Layable line) {piece : Bytes}
    {pieces : List Bytes} (hne : piece ≠ []) (hline : line = piece ++ pieces.flatten) :
    ∃ cut : CutLine, cut.text = line ∧ cut.lines = piece :: continuing pieces := by
  obtain ⟨first, rest, rfl⟩ := List.exists_cons_of_ne_nil hne
  have hunbroken : ∀ q ∈ (first :: rest) :: pieces,
      Bytes.lineFeed ∉ q ∧ Bytes.carriageReturn ∉ q := by
    have hall : ∀ q ∈ (first :: rest) :: pieces, ∀ b ∈ q, b ∈ line := by
      intro q hq b hb
      rw [hline, ← List.flatten_cons]
      exact List.mem_flatten.2 ⟨q, hq, hb⟩
    exact fun q hq => ⟨fun hb => h.lineFeed (hall q hq _ hb),
      fun hb => h.carriageReturn (hall q hq _ hb)⟩
  have hspace := h.space
  have hcomment := h.comment
  rw [hline, List.cons_append, List.head?_cons, ne_eq, Option.some.injEq] at hspace hcomment
  exact ⟨⟨first, rest, pieces, hspace, hcomment, hunbroken⟩, hline.symm, rfl⟩

/-- What can be laid out begins with a name that can. -/
lemma Carries.layable {name : String} {value line : Bytes} (h : Carries name value line)
    (hname : Readable name) : Layable line := by
  obtain ⟨behind, rfl, hlf, hcr, -⟩ := h.exists_behind
  obtain ⟨cut, -, htext⟩ := Ldif.exists_cutLine hname wrapColumn
  have hlayable := cut.layable
  rw [htext] at hlayable
  have hne : Utf8.encode name ≠ [] := by
    rw [← htext]
    exact List.cons_ne_nil _ _
  refine ⟨?_, ?_, ?_, ?_⟩
  · rw [List.head?_append_of_ne_nil _ hne]
    exact hlayable.space
  · rw [List.head?_append_of_ne_nil _ hne]
    exact hlayable.comment
  · rw [List.mem_append, List.mem_cons, not_or, not_or]
    exact ⟨hlayable.lineFeed, by decide, hlf⟩
  · rw [List.mem_append, List.mem_cons, not_or, not_or]
    exact ⟨hlayable.carriageReturn, by decide, hcr⟩

/-- The lines of an entry can be laid out if its names can. -/
lemma SaysContent.layable {dn : String} {pairs : List (String × Bytes)} {lines : List Bytes}
    (h : SaysContent dn pairs lines)
    (hnames : ∀ p ∈ pairs, Carriable p.1 ∧ p.1 ≠ "" ∧ '\r' ∉ p.1.toList) :
    ∀ line ∈ lines, Layable line := by
  obtain @⟨dnLine, controls, type, values, ⟨hspells, hdn⟩, hcontrols, htype, hvalues⟩ := h
  intro line hline
  rw [List.mem_cons, List.mem_append, List.mem_append] at hline
  rcases hline with rfl | hline | hline | hline
  · exact hdn.layable
      (hspells.readable ⟨⟨'d', ['n'], rfl, by decide, by decide⟩, by decide, by decide⟩)
  · obtain ⟨cut, htext⟩ := (hcontrols line hline).exists_cutLine
    exact htext ▸ cut.layable
  · cases htype with
    | without hfirst => exact absurd hline List.not_mem_nil
    | add hadd =>
      obtain ⟨hspells, -, hadd⟩ := hadd
      rw [List.mem_singleton.1 hline]
      exact hadd.layable (hspells.readable
        ⟨⟨'c', "hangetype".toList, rfl, by decide, by decide⟩, by decide, by decide⟩)
  · obtain ⟨p, hp, hvalue⟩ := exists_of_mem_right hvalues hline
    obtain ⟨hname, hne, hcr⟩ := hnames p hp
    exact hvalue.layable (readable_of_carriable hname hne hcr)

/-! ### Documents -/

/-- Values can be said in lines under any name. -/
lemma exists_saysContent (dn : String) (pairs : List (String × Bytes)) :
    ∃ lines, SaysContent dn pairs lines := by
  have hvalues : List.Forall₂ (fun p line => Carries p.1 p.2 line) pairs (pairs.map fun p =>
      Utf8.encode p.1 ++ colon :: colon :: (List.replicate 0 Bytes.space ++
        (Utf8.encode (Base64.encode p.2) ++ List.replicate 0 Bytes.space))) :=
    List.forall₂_map_right_iff.2 (List.forall₂_same.2 fun p _ => .encoded 0 0)
  have htrim : Blank.trim "add" = "add" := by decide
  have hword : lowerAscii (Blank.trim "add") = "add" := by
    rw [htrim, lowerAscii_eq_self (by decide)]
  exact ⟨_, .intro (.intro (.refl "dn") (.encoded 0 0)) (fun line h => absurd h List.not_mem_nil)
    (.add (.intro (.refl "changetype") hword (.encoded 0 0))) hvalues⟩

/-- Values whose names can be carried are merged to an entry under any name that is not empty, and
there are lines that say it.  Whatever lines say it may be cut anywhere behind their first octets.
Where a record of a document has these lines, in any layout, and no record in front of it ends the
reading, exactly that entry is given in its place, between what the records before and behind it
give. -/
theorem outcomes_feed_content {dn : String} (hdn : dn ≠ "") {pairs : List (String × Bytes)}
    (hnames : ∀ p ∈ pairs, Carriable p.1 ∧ p.1 ≠ "" ∧ '\r' ∉ p.1.toList) :
    ∃ e, (EntryDraft.pushPairs { dn } pairs).build = .ok e ∧
      (∃ lines, SaysContent dn pairs lines) ∧
      ∀ lines, SaysContent dn pairs lines →
        (∀ line ∈ lines, ∀ piece pieces, piece ≠ [] → line = piece ++ pieces.flatten →
          ∃ cut : CutLine, cut.text = line ∧ cut.lines = piece :: continuing pieces) ∧
        ∀ (d : Document) (ends : Nat → LineEnd) (ended : Bool) (portion : Option Nat)
          (before : List (List LogicalLine)) (record : List LogicalLine)
          (after : List (List LogicalLine)),
          d.logical = before ++ record :: after → record.map (·.text) = lines →
          (∀ e', .error e' ∈ results true before → e'.mayContinue = true) →
          (feed { bytes := d.bytes ends ended, portion }).items.map (·.outcome) =
            given (results true before) ++ .ok (.add e) :: given (results false after) := by
  obtain ⟨e, hbuild⟩ := exists_build_pushPairs hdn fun p hp => (hnames p hp).2.1
  refine ⟨e, hbuild, exists_saysContent dn pairs, fun lines hsaid =>
    ⟨fun line hline piece pieces hne hcut => ?_, ?_⟩⟩
  · exact (hsaid.layable hnames line hline).exists_cutLine hne hcut
  · rintro d ends ended portion before record after hlogical rfl hbefore
    have hcarried : ∀ p ∈ pairs, Carriable p.1 ∧ p.1 ≠ "" := fun p hp =>
      ⟨(hnames p hp).1, (hnames p hp).2.1⟩
    have houtcomes : (feed { bytes := d.bytes ends ended, portion }).items.map (·.outcome) =
        given (results true d.logical) :=
      outcomes_feedRecords_held rfl (held_rawRecords d ends ended portion) true []
    obtain ⟨versionAllowed, hresults⟩ := exists_results_append true before record after
    rw [readRecord_of_content hbuild hcarried hsaid rfl] at hresults
    rw [houtcomes, hlogical, hresults, given_append hbefore, given]

/-- An entry with an octet that is no text is read, its name folded within a character. -/
theorem outcomes_feed_content_folded :
    let e : Entry := ⟨"cn=\u00e9", [⟨"control", [[0xFF, 0x20]], by decide, by decide⟩,
      ⟨"a", [[0x61], [0x3C]], by decide, by decide⟩], by decide, by decide⟩
    (feed { bytes := Utf8.encode "DN:cn=" ++ [0xC3, 0x0A, 0x20, 0xA9, 0x0A] ++
        Utf8.encode "control: x\nChangeType: Add\ncontrol: " ++ [0xFF] ++
          Utf8.encode " \na::  YQ== \nA: <" }).items.map (·.outcome) = [.ok (.add e)] := by
  intro e
  let pairs : List (String × Bytes) :=
    [("control", [0xFF, 0x20]), ("a", [0x61]), ("A", [0x3C])]
  let logical : List CommentedLine :=
    [⟨[], 0x44, Utf8.encode "N:cn=" ++ [0xC3], [[0xA9]], by decide, by decide, by decide⟩,
      ⟨[], 0x63, Utf8.encode "ontrol: x", [], by decide, by decide, by decide⟩,
      ⟨[], 0x43, Utf8.encode "hangeType: Add", [], by decide, by decide, by decide⟩,
      ⟨[], 0x63, Utf8.encode "ontrol: " ++ [0xFF, 0x20], [], by decide, by decide, by decide⟩,
      ⟨[], 0x61, Utf8.encode "::  YQ== ", [], by decide, by decide, by decide⟩,
      ⟨[], 0x41, Utf8.encode ": <", [], by decide, by decide, by decide⟩]
  let d : Document := ⟨[], [⟨logical, by decide, []⟩], by decide, []⟩
  have hnames : ∀ p ∈ pairs, Carriable p.1 ∧ p.1 ≠ "" ∧ '\r' ∉ p.1.toList := by
    intro p hp
    have hcases : p = ("control", [0xFF, 0x20]) ∨ p = ("a", [0x61]) ∨ p = ("A", [0x3C]) := by
      simpa [pairs] using hp
    rcases hcases with rfl | rfl | rfl <;>
      exact ⟨⟨by decide, by decide, by decide, by decide, by decide⟩, by decide, by decide⟩
  have hfirst : ∀ b ∈ (Utf8.encode "cn=\u00e9").head?, b ≠ Bytes.space ∧ b ≠ colon ∧ b ≠ less := by
    intro b hb
    rw [← Option.some.inj hb]
    decide
  have hdn : SaysDn "cn=\u00e9" (Utf8.encode "DN" ++ colon :: Utf8.encode "cn=\u00e9") :=
    .intro (spells_of_map_toLower (by decide)) (.direct (by decide) (by decide) hfirst)
  have hcontrol : IsControl (Utf8.encode "control" ++ colon :: Utf8.encode " x") :=
    .intro (.refl "control") (by decide) (by decide)
  have htrim : Blank.trim "Add" = "Add" := by decide
  have hword : lowerAscii (Blank.trim "Add") = "add" := by
    rw [htrim]
    exact (spells_of_map_toLower (by decide) : Spells "add" "Add").trans
      (lowerAscii_eq_self (by decide))
  have htype : SaysAdd (Utf8.encode "ChangeType" ++ colon :: Bytes.space :: Utf8.encode "Add") :=
    .intro (spells_of_map_toLower (by decide)) hword (.spaced (by decide) (by decide))
  have hvalues : List.Forall₂ (fun p line => Carries p.1 p.2 line) pairs _ :=
    .cons (.spaced (by decide) (by decide)) (.cons (.encoded 2 1)
      (.cons (.spaced (by decide) (by decide)) .nil))
  have hsaid : SaysContent "cn=\u00e9" pairs _ :=
    .intro hdn (List.forall_mem_singleton.2 hcontrol) (.add htype) hvalues
  obtain ⟨e', hbuild, -, hread⟩ :=
    outcomes_feed_content (show "cn=\u00e9" ≠ "" by decide) hnames
  obtain rfl : e' = e := Except.ok.inj (hbuild.symm.trans rfl)
  exact (hread _ hsaid).2 d (fun _ => .lineFeed) false none [] (numberLines 0 logical) [] rfl
    (by decide +kernel) (fun _ h => absurd h List.not_mem_nil)

end DirectoryExchange.Ldif

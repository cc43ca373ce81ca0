import DirectoryExchange.Proofs.Ldif.Entry
import DirectoryExchange.Proofs.Ldif.Spelling
import DirectoryExchange.Proofs.Ldif.Written
import Mathlib.Data.List.Forall2

/-!
# Change records as lines

A record that deletes, modifies or renames can be said in lines in many ways (`Says`): the values
plain or in base64, the words in any letter case, control lines in front, the lines of a rename in
any order, and the last separator of the modifications left out.  However it is said, exactly that
record is read (`readRecord_of_said`).
-/

namespace DirectoryExchange.Ldif

/-! ### What the lines are -/

/-- A line that gives the value under some spelling of the name, as it is given for an entry or in
base64. -/
inductive SaysValue (name : String) (value : Bytes) : String → Prop
  /-- As it is given for an entry. -/
  | asWritten {spelling : String} (hspells : Spells name spelling) :
      SaysValue name value (valueLine spelling value)
  /-- In base64. -/
  | encoded {spelling : String} (hspells : Spells name spelling) :
      SaysValue name value (spelling ++ ":: " ++ Base64.encode value)

/-- The lines of a modification: the head names the attribute, and a line for each value follows. -/
inductive SaysModification (m : Modification) : List String → Prop
  | intro {head : String} {lines : List String}
      (hhead : SaysValue m.kind.word (Utf8.encode m.name) head)
      (hvalues : List.Forall₂ (SaysValue m.name) m.values lines) :
      SaysModification m (head :: lines)

/-- The lines of modifications, a separator behind each.  Behind the last one it may be missing. -/
inductive SaysModifications : List Modification → List String → Prop
  | nil : SaysModifications [] []
  | last {m : Modification} {lines : List String} (hm : SaysModification m lines) :
      SaysModifications [m] lines
  | separated {m : Modification} {steps : List Modification} {lines rest : List String}
      (hm : SaysModification m lines) (hrest : SaysModifications steps rest) :
      SaysModifications (m :: steps) (lines ++ "-" :: rest)

/-- The parts of a rename. -/
inductive RenamePart where
  | newRdn
  | deleteOldRdn
  | newSuperior
  deriving DecidableEq

/-- The word for the part. -/
def RenamePart.word : RenamePart → String
  | newRdn => "newrdn"
  | deleteOldRdn => "deleteoldrdn"
  | newSuperior => "newsuperior"

/-- What the rename says of the part, if it has it. -/
def RenamePart.text? (r : Rename) : RenamePart → Option String
  | newRdn => some r.newRdn
  | deleteOldRdn => some (if r.deleteOldRdn then "1" else "0")
  | newSuperior => r.newSuperior

/-- A line that says the part of the rename. -/
def SaysPart (r : Rename) (part : RenamePart) (line : String) : Prop :=
  ∃ text, part.text? r = some text ∧ SaysValue part.word (Utf8.encode text) line

/-- The lines of a rename: those of the parts that it has, in any order. -/
def SaysRename (r : Rename) (lines : List String) : Prop :=
  ∃ parts : List RenamePart, parts.Nodup ∧ (∀ part, part ∈ parts ↔ (part.text? r).isSome) ∧
    List.Forall₂ (SaysPart r) parts lines

/-- What follows the line of the change type, which is one of these words. -/
inductive SaysBody : ChangeRecord → String → List String → Prop
  | delete {dn : String} {dn_ne : dn ≠ ""} : SaysBody (.delete dn dn_ne) "delete" []
  | modify {dn : String} {steps : List Modification} {dn_ne : dn ≠ ""} {steps_ne : steps ≠ []}
      {lines : List String} (hsteps : SaysModifications steps lines) :
      SaysBody (.modify dn steps dn_ne steps_ne) "modify" lines
  | modrdn {dn : String} {r : Rename} {dn_ne : dn ≠ ""} {lines : List String}
      (hr : SaysRename r lines) : SaysBody (.rename dn r dn_ne) "modrdn" lines
  | moddn {dn : String} {r : Rename} {dn_ne : dn ≠ ""} {lines : List String}
      (hr : SaysRename r lines) : SaysBody (.rename dn r dn_ne) "moddn" lines

/-- A control line, with anything behind its colon. -/
inductive IsControl : Bytes → Prop
  | intro {spelling : String} {behind : Bytes} (hspells : Spells "control" spelling)
      (hlf : Bytes.lineFeed ∉ behind) (hcr : Bytes.carriageReturn ∉ behind) :
      IsControl (Utf8.encode spelling ++ colon :: behind)

/-- The lines of a record. -/
inductive Says (record : ChangeRecord) : List Bytes → Prop
  | intro {dnLine changeLine type word : String} {controls : List Bytes} {body : List String}
      (hdn : SaysValue "dn" (Utf8.encode record.dn) dnLine)
      (hcontrols : ∀ line ∈ controls, IsControl line) (hword : Spells type word)
      (hchange : SaysValue "changetype" (Utf8.encode word) changeLine)
      (hbody : SaysBody record type body) :
      Says record (Utf8.encode dnLine :: (controls ++ Utf8.encode changeLine ::
        body.map Utf8.encode))

/-- An attribute name that a modification can give: it ends where its line ends and at no colon, its
line does not go on another and is no comment, and no white space is lost. -/
structure Sayable (name : String) : Prop where
  /-- There is no colon in it. -/
  colon : ':' ∉ name.toList
  /-- There is no line feed in it. -/
  lineFeed : '\n' ∉ name.toList
  /-- There is no carriage return in it. -/
  carriageReturn : '\r' ∉ name.toList
  /-- It does not begin with a space. -/
  space : name.toList.head? ≠ some ' '
  /-- It does not begin with a number sign. -/
  comment : name.toList.head? ≠ some '#'
  /-- There is no white space at either end. -/
  trimmed : Blank.trim name = name

/-- The modifications of a record. -/
def steps : ChangeRecord → List Modification
  | .modify _ steps _ _ => steps
  | _ => []

/-! ### Single lines -/

section Line

variable {l : LogicalLine} {name line : String} {value : Bytes}

/-- A line that says a value gives it under some spelling of the name. -/
lemma SaysValue.exists_gives (h : SaysValue name value line) :
    ∃ spelling, Spells name spelling ∧ Gives spelling value line := by
  cases h with
  | asWritten hspells => exact ⟨_, hspells, gives_valueLine _ value⟩
  | encoded hspells => exact ⟨_, hspells, gives_encoded _ value⟩

/-- A line that says a value is named as the name is. -/
lemma SaysValue.isNamed (h : SaysValue name value line) (htext : l.text = Utf8.encode line)
    (hcolon : ':' ∉ name.toList) (other : String) : l.isNamed other = sameName name other := by
  obtain ⟨spelling, hspells, hgives⟩ := h.exists_gives
  rw [← hspells.mem_iff (by decide)] at hcolon
  rw [hgives.isNamed htext hcolon, hspells.sameName]

/-- A line that says a value is split into a spelling of the name and the value. -/
lemma SaysValue.exists_split (h : SaysValue name value line) (htext : l.text = Utf8.encode line)
    (hcolon : ':' ∉ name.toList) (hne : name ≠ "") :
    ∃ spelling, Spells name spelling ∧ l.split = .ok (spelling, value) := by
  obtain ⟨spelling, hspells, hgives⟩ := h.exists_gives
  rw [← hspells.mem_iff (by decide)] at hcolon
  exact ⟨spelling, hspells, hgives.split htext hcolon (hspells.ne_empty hne)⟩

/-- If the value is a text, then into a spelling and the text. -/
lemma SaysValue.exists_splitText {text : String} (h : SaysValue name (Utf8.encode text) line)
    (htext : l.text = Utf8.encode line) (hcolon : ':' ∉ name.toList) (hne : name ≠ "") :
    ∃ spelling, Spells name spelling ∧ l.splitText = .ok (spelling, text) := by
  obtain ⟨spelling, hspells, hgives⟩ := h.exists_gives
  rw [← hspells.mem_iff (by decide)] at hcolon
  exact ⟨spelling, hspells, hgives.splitText htext hcolon (hspells.ne_empty hne)⟩

/-- A line that says a value of a readable name can be read. -/
lemma SaysValue.readable (h : SaysValue name value line) (hname : Readable name) :
    Readable line := by
  obtain ⟨spelling, hspells, hgives⟩ := h.exists_gives
  exact hgives.readable (hspells.readable hname)

/-- A line with a name is no separator, whatever its name and value are. -/
lemma SaysValue.isSeparator (h : SaysValue name value line) (htext : l.text = Utf8.encode line) :
    l.isSeparator = false := by
  obtain ⟨spelling, -, behind, hline, -⟩ := h.exists_gives
  have hmem : colon ∈ l.text := by
    rw [htext, hline, Utf8.encode_append, Utf8.encode_append, List.mem_append, List.mem_append]
    exact .inl (.inr List.mem_cons_self)
  refine Bool.eq_false_iff.2 fun hseparator => ?_
  have hkept : Bytes.dropTrailing Bytes.space l.text = [0x2D] := by
    simpa [LogicalLine.isSeparator] using hseparator
  have hcolon : colon ∈ Bytes.dropTrailing Bytes.space l.text :=
    Bytes.mem_dropTrailing hmem (by decide)
  rw [hkept] at hcolon
  exact absurd hcolon (by decide)

end Line

/-! ### Modifications -/

/-- The lines of values give their block the values, in order. -/
lemma readBlocks_values {name : String} (hcolon : ':' ∉ name.toList) (hne : name ≠ "")
    {values : List Bytes} {texts : List String}
    (hvalues : List.Forall₂ (SaysValue name) values texts) {lines : List LogicalLine}
    (htexts : lines.map (·.text) = texts.map Utf8.encode) (block : Block)
    (hname : block.name = name) (rest : List LogicalLine) :
    readBlocks (some block) (lines ++ rest) =
      readBlocks (some { block with values := block.values ++ values }) rest := by
  induction hvalues generalizing lines block with
  | nil =>
    obtain rfl := List.map_eq_nil_iff.1 htexts
    rw [List.append_nil, List.nil_append]
  | @cons value text values texts hvalue _ ih =>
    obtain ⟨l, lines, rfl, htext, htexts⟩ := List.map_eq_cons_iff.1 htexts
    obtain ⟨spelling, hspells, hsplit⟩ := hvalue.exists_split htext hcolon hne
    have hsame : sameName spelling block.name = true := by
      rw [hspells.sameName, hname]
      exact sameName_refl name
    have hadd : block.add l = .ok { block with values := block.values ++ [value] } := by
      simp only [Block.add, hsplit, bind, Except.bind, hsame, if_true]
      rfl
    rw [List.cons_append, readBlocks, hvalue.isSeparator htext, if_neg Bool.false_ne_true, hadd]
    have hrest := ih htexts { block with values := block.values ++ [value] } hname
    rwa [List.append_assoc, List.singleton_append] at hrest

/-- The kind of a modification is known by its word, in any letter case. -/
lemma kind?_of_spells {kind : ModificationKind} {word : String} (h : Spells kind.word word) :
    Block.kind? word = some kind := by
  have hlower : lowerAscii kind.word = kind.word :=
    lowerAscii_eq_self (by cases kind <;> decide)
  rw [Block.kind?, h, hlower]
  cases kind <;> rfl

/-- The lines of a modification are read as a block that is closed as the modification. -/
lemma exists_readBlocks {m : Modification} (hname : Sayable m.name) {texts : List String}
    (hm : SaysModification m texts) {lines : List LogicalLine}
    (htexts : lines.map (·.text) = texts.map Utf8.encode) :
    ∃ block : Block, block.close = .ok m ∧
      ∀ rest, readBlocks none (lines ++ rest) = readBlocks (some block) rest := by
  obtain @⟨head, texts, hhead, hvalues⟩ := hm
  obtain ⟨l, lines, rfl, htext, htexts⟩ := List.map_eq_cons_iff.1 htexts
  have hword : ':' ∉ m.kind.word.toList ∧ m.kind.word ≠ "" := by
    cases m.kind <;> decide
  obtain ⟨word, hspells, hsplit⟩ := hhead.exists_splitText htext hword.1 hword.2
  have hopen : Block.ofHead l = .ok ⟨l.location, m.kind, m.name, []⟩ := by
    simp only [Block.ofHead, hsplit, bind, Except.bind, kind?_of_spells hspells, hname.trimmed]
    rfl
  refine ⟨⟨l.location, m.kind, m.name, m.values⟩, ?_, fun rest => ?_⟩
  · have hmake : Modification.make m.kind m.name m.values = .ok m := by simp
    rw [Block.close, hmake]
    rfl
  · rw [List.cons_append, readBlocks, hopen]
    exact readBlocks_values hname.colon m.name_ne hvalues htexts _ rfl rest

/-- The lines of modifications are read as the modifications. -/
lemma readBlocks_of_said {steps : List Modification} (hnames : ∀ m ∈ steps, Sayable m.name)
    {texts : List String} (hsteps : SaysModifications steps texts) {lines : List LogicalLine}
    (htexts : lines.map (·.text) = texts.map Utf8.encode) :
    readBlocks none lines = .ok steps := by
  induction hsteps generalizing lines with
  | nil =>
    obtain rfl := List.map_eq_nil_iff.1 htexts
    rfl
  | @last m texts hm =>
    obtain ⟨block, hclose, hread⟩ := exists_readBlocks (hnames m List.mem_cons_self) hm htexts
    have hlines := hread []
    rw [List.append_nil] at hlines
    rw [hlines, readBlocks, hclose]
    rfl
  | @separated m steps texts rest hm _ ih =>
    obtain ⟨hname, hnames⟩ := List.forall_mem_cons.1 hnames
    rw [List.map_append, List.map_cons, List.map_eq_append_iff] at htexts
    obtain ⟨front, back, rfl, hfront, hback⟩ := htexts
    obtain ⟨l, back, rfl, htext, hback⟩ := List.map_eq_cons_iff.1 hback
    obtain ⟨block, hclose, hread⟩ := exists_readBlocks hname hm hfront
    have hseparator : l.isSeparator = true := by
      rw [LogicalLine.isSeparator, htext]
      decide
    rw [hread, readBlocks, hseparator, if_pos rfl, hclose]
    simp only [bind, Except.bind, ih hnames hback]
    rfl

/-! ### Renames -/

/-- What has been read of the rename once these parts have been said. -/
def draftOf (r : Rename) (said : List RenamePart) : RenameDraft where
  newRdn := if .newRdn ∈ said then some r.newRdn else none
  deleteOldRdn := if .deleteOldRdn ∈ said then some r.deleteOldRdn else none
  newSuperior := if .newSuperior ∈ said then r.newSuperior else none

/-- A part that has not been said yet is taken up. -/
lemma add_draftOf {r : Rename} {part : RenamePart} {line : String} (hpart : SaysPart r part line)
    {l : LogicalLine} (htext : l.text = Utf8.encode line) {said : List RenamePart}
    (hnew : part ∉ said) : (draftOf r said).add l = .ok (draftOf r (part :: said)) := by
  obtain ⟨text, hr, hline⟩ := hpart
  have hword : ':' ∉ part.word.toList ∧ part.word ≠ "" := by
    cases part <;> decide
  obtain ⟨spelling, hspells, hsplit⟩ := hline.exists_splitText htext hword.1 hword.2
  have hlower : lowerAscii spelling = part.word := by
    rw [hspells, lowerAscii_eq_self (by cases part <;> decide)]
  simp only [RenameDraft.add, hsplit, bind, Except.bind, hlower]
  cases part with
  | newRdn =>
    obtain rfl := Option.some.inj hr
    simp [RenamePart.word, draftOf, hnew, pure, Except.pure]
  | deleteOldRdn =>
    obtain rfl := Option.some.inj hr
    have hzero : Blank.trim "0" = "0" := by decide
    have hone : Blank.trim "1" = "1" := by decide
    cases hdelete : r.deleteOldRdn <;>
      simp [RenamePart.word, draftOf, hnew, hdelete, hzero, hone, pure, Except.pure]
  | newSuperior =>
    have hsome : r.newSuperior = some text := hr
    simp [RenamePart.word, draftOf, hnew, hsome, pure, Except.pure]

/-- The lines of a rename are taken up one after the other. -/
lemma foldlM_add_draftOf {r : Rename} {parts : List RenamePart} {texts : List String}
    (hparts : List.Forall₂ (SaysPart r) parts texts) {lines : List LogicalLine}
    (htexts : lines.map (·.text) = texts.map Utf8.encode) {said : List RenamePart}
    (hnodup : parts.Nodup) (hnew : ∀ part ∈ parts, part ∉ said) :
    lines.foldlM RenameDraft.add (draftOf r said) = .ok (draftOf r (parts.reverse ++ said)) := by
  induction hparts generalizing lines said with
  | nil =>
    obtain rfl := List.map_eq_nil_iff.1 htexts
    rfl
  | @cons part text parts texts hpart _ ih =>
    obtain ⟨l, lines, rfl, htext, htexts⟩ := List.map_eq_cons_iff.1 htexts
    obtain ⟨hfirst, hnodup⟩ := List.nodup_cons.1 hnodup
    obtain ⟨hnewFirst, hnew⟩ := List.forall_mem_cons.1 hnew
    have hlater : ∀ other ∈ parts, other ∉ part :: said := by
      intro other hother
      rw [List.mem_cons, not_or]
      exact ⟨fun heq => hfirst (heq ▸ hother), hnew other hother⟩
    rw [List.foldlM_cons, add_draftOf hpart htext hnewFirst]
    have hrest := ih htexts hnodup hlater
    simpa [bind, Except.bind] using hrest

/-- The lines of a rename are read as the rename. -/
lemma readRename_of_said {dn : String} (dn_ne : dn ≠ "") {r : Rename} {texts : List String}
    (hr : SaysRename r texts) {lines : List LogicalLine}
    (htexts : lines.map (·.text) = texts.map Utf8.encode) (location : Location) :
    readRename dn location lines = .ok (.rename dn r dn_ne) := by
  obtain ⟨parts, hnodup, hall, hparts⟩ := hr
  have hdraft : draftOf r (parts.reverse ++ []) =
      ⟨some r.newRdn, some r.deleteOldRdn, r.newSuperior⟩ := by
    have hnewRdn : .newRdn ∈ parts := (hall .newRdn).2 rfl
    have hdeleteOldRdn : .deleteOldRdn ∈ parts := (hall .deleteOldRdn).2 rfl
    have hnewSuperior : .newSuperior ∈ parts ↔ r.newSuperior.isSome := hall .newSuperior
    cases hsuperior : r.newSuperior <;>
      simp_all [draftOf]
  have hfold : lines.foldlM RenameDraft.add {} =
      .ok ⟨some r.newRdn, some r.deleteOldRdn, r.newSuperior⟩ := by
    rw [← hdraft]
    exact foldlM_add_draftOf hparts htexts hnodup fun _ _ => List.not_mem_nil
  simp only [readRename, hfold, bind, Except.bind, ChangeRecord.makeRename, dif_neg dn_ne,
    dif_neg r.newRdn_ne, dif_neg r.newSuperior_ne]
  rfl

/-! ### Records -/

/-- A control line is named as one. -/
lemma IsControl.isNamed {line : Bytes} (h : IsControl line) {l : LogicalLine}
    (htext : l.text = line) : l.isNamed "control" = true := by
  obtain @⟨spelling, behind, hspells, -, -⟩ := h
  have hcolon : colon ∉ Utf8.encode spelling := by
    rw [Utf8.encode, Utf8.mem_encodeChars_iff (by decide)]
    exact (hspells.mem_iff (by decide)).not.2 (by decide)
  simp only [LogicalLine.isNamed, htext, Bytes.cutAt?_append hcolon, Utf8.decode?_encode,
    hspells.sameName, sameName_refl]

/-- The lines behind the change type are read as the record. -/
lemma readChange_body {record : ChangeRecord} (hnames : ∀ m ∈ steps record, Sayable m.name)
    {type word : String} (hword : Spells type word) {texts : List String}
    (hbody : SaysBody record type texts) {l : LogicalLine} {changeLine : String}
    (hchange : SaysValue "changetype" (Utf8.encode word) changeLine)
    (htext : l.text = Utf8.encode changeLine) {lines : List LogicalLine}
    (htexts : lines.map (·.text) = texts.map Utf8.encode) (location : Location) :
    readChange record.dn location (l :: lines) = .ok record := by
  have hcontrol : l.isNamed "control" = false := by
    rw [hchange.isNamed htext (by decide)]
    decide
  have hnamed : l.isNamed "changetype" = true := by
    rw [hchange.isNamed htext (by decide)]
    exact sameName_refl _
  obtain ⟨spelling, -, hsplit⟩ := hchange.exists_splitText htext (by decide) (by decide)
  have htype : Blank.Trimmed type ∧ type.toList.map Char.toLower = type.toList := by
    cases hbody <;> exact ⟨by rw [Blank.Trimmed]; decide, by decide⟩
  have hlower : lowerAscii (Blank.trim word) = type := by
    rw [hword.trimmed htype.1, hword, lowerAscii_eq_self htype.2]
  rw [readChange, List.dropWhile_cons_of_neg (by simp [hcontrol])]
  simp only [hnamed, if_true, hsplit, bind, Except.bind, hlower]
  cases hbody with
  | @delete dn dn_ne =>
    obtain rfl := List.map_eq_nil_iff.1 htexts
    change readDelete dn location [] = _
    rw [readDelete, ChangeRecord.makeDelete, dif_neg dn_ne]
    rfl
  | @modify dn steps dn_ne steps_ne texts hsteps =>
    have hread : readBlocks none lines = .ok steps := readBlocks_of_said hnames hsteps htexts
    simp only [ChangeRecord.dn, readModify, hread, bind, Except.bind, ChangeRecord.makeModify,
      dif_neg dn_ne, dif_neg steps_ne]
    rfl
  | modrdn hr => exact readRename_of_said _ hr htexts location
  | moddn hr => exact readRename_of_said _ hr htexts location

/-- Control lines are passed over. -/
lemma readChange_controls {controls : List Bytes} (hcontrols : ∀ line ∈ controls, IsControl line)
    {lines : List LogicalLine} (htexts : lines.map (·.text) = controls) (dn : String)
    (location : Location) (rest : List LogicalLine) :
    readChange dn location (lines ++ rest) = readChange dn location rest := by
  have hdropped : (lines ++ rest).dropWhile (·.isNamed "control") =
      rest.dropWhile (·.isNamed "control") := by
    refine List.dropWhile_append_of_pos fun l hl => ?_
    exact (hcontrols l.text (htexts ▸ List.mem_map_of_mem hl)).isNamed rfl
  rw [readChange, readChange, hdropped]

/-- A record is read from any lines that say it. -/
theorem readRecord_of_said {record : ChangeRecord} (hnames : ∀ m ∈ steps record, Sayable m.name)
    {raw : RawRecord} (hsaid : Says record (raw.lines.map (·.text))) (horphan : raw.orphan = none)
    (versionAllowed : Bool) : readRecord versionAllowed raw = (.ok (some record), []) := by
  obtain ⟨lines, orphan, position⟩ := raw
  obtain rfl : orphan = none := horphan
  generalize htexts : lines.map (·.text) = texts at hsaid
  obtain @⟨dnLine, changeLine, type, word, controls, body, hdn, hcontrols, hword, hchange, hbody⟩ :=
    hsaid
  obtain ⟨l, lines, rfl, htext, htexts⟩ := List.map_eq_cons_iff.1 htexts
  obtain ⟨front, back, rfl, hfront, hback⟩ := List.map_eq_append_iff.1 htexts
  obtain ⟨change, back, rfl, hchangeText, hback⟩ := List.map_eq_cons_iff.1 hback
  have hversion : l.isNamed "version" = false := by
    rw [hdn.isNamed htext (by decide)]
    decide
  have hnamed : l.isNamed "dn" = true := by
    rw [hdn.isNamed htext (by decide)]
    exact sameName_refl _
  obtain ⟨spelling, -, hsplit⟩ := hdn.exists_splitText htext (by decide) (by decide)
  simp only [readRecord, hversion, Bool.and_false, Bool.false_eq_true, if_false, readLines, hnamed,
    if_true, hsplit, bind, Except.bind, readChange_controls hcontrols hfront,
    readChange_body hnames hword hbody hchange hchangeText hback]
  rfl

/-! ### Saying a record -/

/-- The lines of a modification that can be given, and its separator. -/
lemma exists_saysModifications (steps : List Modification) :
    ∃ lines, SaysModifications steps lines := by
  induction steps with
  | nil => exact ⟨[], .nil⟩
  | cons m steps ih =>
    obtain ⟨rest, hrest⟩ := ih
    have hvalues : List.Forall₂ (SaysValue m.name) m.values (m.values.map (valueLine m.name)) :=
      List.forall₂_map_right_iff.2 (List.forall₂_same.2 fun value _ => .asWritten (.refl m.name))
    exact ⟨_, .separated (.intro (.asWritten (.refl m.kind.word)) hvalues) hrest⟩

/-- Every rename can be said. -/
lemma exists_saysRename (r : Rename) : ∃ lines, SaysRename r lines := by
  let parts : List RenamePart :=
    .newRdn :: .deleteOldRdn :: if r.newSuperior.isSome then [.newSuperior] else []
  have hnodup : parts.Nodup := by
    cases hsuperior : r.newSuperior <;> simp [parts, hsuperior]
  have hall : ∀ part, part ∈ parts ↔ (part.text? r).isSome := by
    intro part
    cases part <;> cases hsuperior : r.newSuperior <;>
      simp [parts, hsuperior, RenamePart.text?]
  have hlines : List.Forall₂ (SaysPart r) parts
      (parts.map fun part => valueLine part.word (Utf8.encode ((part.text? r).getD ""))) := by
    refine List.forall₂_map_right_iff.2 (List.forall₂_same.2 fun part hpart => ?_)
    obtain ⟨text, htext⟩ := Option.isSome_iff_exists.1 ((hall part).1 hpart)
    refine ⟨text, htext, ?_⟩
    rw [htext]
    exact .asWritten (.refl part.word)
  exact ⟨_, parts, hnodup, hall, hlines⟩

/-- Whatever a record deletes, modifies or renames, there are lines that say it. -/
lemma exists_said {record : ChangeRecord} (h : ∀ e, record ≠ .add e) :
    ∃ lines, Says record lines := by
  obtain ⟨type, body, hbody⟩ : ∃ type body, SaysBody record type body := by
    cases record with
    | add e => exact absurd rfl (h e)
    | delete dn dn_ne => exact ⟨_, _, .delete⟩
    | modify dn steps dn_ne steps_ne =>
      obtain ⟨lines, hlines⟩ := exists_saysModifications steps
      exact ⟨_, _, .modify hlines⟩
    | rename dn r dn_ne =>
      obtain ⟨lines, hlines⟩ := exists_saysRename r
      exact ⟨_, _, .modrdn hlines⟩
  exact ⟨_, .intro (.asWritten (.refl "dn")) (fun line hline => absurd hline List.not_mem_nil)
    (.refl type) (.asWritten (.refl "changetype")) hbody⟩

/-- What a control line says can be laid out as a line. -/
lemma IsControl.exists_cutLine {line : Bytes} (h : IsControl line) :
    ∃ cut : CutLine, cut.text = line := by
  obtain @⟨spelling, behind, hspells, hlf, hcr⟩ := h
  have hreadable : Readable spelling :=
    hspells.readable ⟨⟨'c', "ontrol".toList, rfl, by decide, by decide⟩, by decide, by decide⟩
  obtain ⟨cut, -, htext⟩ := Ldif.exists_cutLine hreadable wrapColumn
  have hunbroken : ∀ piece ∈ (cut.first :: cut.rest) :: (cut.continued ++ [colon :: behind]),
      Bytes.lineFeed ∉ piece ∧ Bytes.carriageReturn ∉ piece := by
    intro piece hpiece
    rw [← List.cons_append, List.mem_append, List.mem_singleton] at hpiece
    rcases hpiece with hpiece | rfl
    · exact cut.unbroken piece hpiece
    · rw [List.mem_cons, List.mem_cons, not_or, not_or]
      exact ⟨⟨by decide, hlf⟩, by decide, hcr⟩
  refine ⟨{ cut with continued := cut.continued ++ [colon :: behind], unbroken := hunbroken }, ?_⟩
  rw [← htext, CutLine.text, CutLine.text]
  simp

/-- A name that can be said stands on a line that can be read. -/
lemma Sayable.readable {name : String} (h : Sayable name) (hne : name ≠ "") : Readable name := by
  obtain ⟨c, rest, hchars⟩ : ∃ c rest, name.toList = c :: rest :=
    List.exists_cons_of_ne_nil fun hnil => hne (String.toList_eq_nil_iff.1 hnil)
  have hspace := h.space
  have hcomment := h.comment
  rw [hchars, List.head?_cons, ne_eq, Option.some.injEq] at hspace hcomment
  exact ⟨⟨c, rest, hchars, hspace, hcomment⟩, h.lineFeed, h.carriageReturn⟩

/-- Each of the second things stands beside one of the first. -/
lemma exists_of_mem_right {α β : Type} {R : α → β → Prop} {xs : List α} {ys : List β}
    (h : List.Forall₂ R xs ys) {y : β} (hy : y ∈ ys) : ∃ x ∈ xs, R x y := by
  induction h with
  | nil => exact absurd hy List.not_mem_nil
  | cons hfirst _ ih =>
    rcases List.mem_cons.1 hy with rfl | hy
    · exact ⟨_, List.mem_cons_self, hfirst⟩
    · obtain ⟨x, hx, hxy⟩ := ih hy
      exact ⟨x, List.mem_cons_of_mem _ hx, hxy⟩

/-- The lines of modifications can be read if the names can be said. -/
lemma SaysModifications.readable {steps : List Modification} {lines : List String}
    (h : SaysModifications steps lines) (hnames : ∀ m ∈ steps, Sayable m.name) :
    ∀ line ∈ lines, Readable line := by
  have hone : ∀ {m : Modification} {lines}, SaysModification m lines → Sayable m.name →
      ∀ line ∈ lines, Readable line := by
    rintro m _ @⟨head, lines, hhead, hvalues⟩ hname line hline
    rcases List.mem_cons.1 hline with rfl | hline
    · refine hhead.readable ?_
      cases m.kind <;> exact ⟨⟨_, _, rfl, by decide, by decide⟩, by decide, by decide⟩
    · obtain ⟨value, -, hvalue⟩ := exists_of_mem_right hvalues hline
      exact hvalue.readable (hname.readable m.name_ne)
  induction h with
  | nil => exact fun line hline => absurd hline List.not_mem_nil
  | last hm => exact hone hm (hnames _ List.mem_cons_self)
  | separated hm _ ih =>
    obtain ⟨hname, hnames⟩ := List.forall_mem_cons.1 hnames
    intro line hline
    rcases List.mem_append.1 hline with hline | hline
    · exact hone hm hname line hline
    · rcases List.mem_cons.1 hline with rfl | hline
      · exact ⟨⟨'-', [], rfl, by decide, by decide⟩, by decide, by decide⟩
      · exact ih hnames line hline

/-- The lines of a rename can be read. -/
lemma SaysRename.readable {r : Rename} {lines : List String} (h : SaysRename r lines) :
    ∀ line ∈ lines, Readable line := by
  obtain ⟨parts, -, -, hparts⟩ := h
  intro line hline
  obtain ⟨part, -, text, -, hvalue⟩ := exists_of_mem_right hparts hline
  refine hvalue.readable ?_
  cases part <;> exact ⟨⟨_, _, rfl, by decide, by decide⟩, by decide, by decide⟩

/-- Lines that can be cut are the lines of a record. -/
lemma exists_logical_of_texts {lines : List Bytes}
    (h : ∀ line ∈ lines, ∃ cut : CutLine, cut.text = line) :
    ∃ logical : List CommentedLine, logical.map (·.line.text) = lines := by
  induction lines with
  | nil => exact ⟨[], rfl⟩
  | cons line lines ih =>
    obtain ⟨⟨cut, htext⟩, hlines⟩ := List.forall_mem_cons.1 h
    obtain ⟨logical, hlogical⟩ := ih hlines
    exact ⟨⟨[], cut⟩ :: logical, by rw [List.map_cons, htext, hlogical]⟩

/-- Lines that say a record can be laid out. -/
lemma Says.exists_logical {record : ChangeRecord} (hnames : ∀ m ∈ steps record, Sayable m.name)
    {lines : List Bytes} (h : Says record lines) :
    ∃ logical : List CommentedLine, logical.map (·.line.text) = lines := by
  have hreadable : ∀ {line : String}, Readable line →
      ∃ cut : CutLine, cut.text = Utf8.encode line := by
    intro line hline
    obtain ⟨cut, -, htext⟩ := exists_cutLine hline wrapColumn
    exact ⟨cut, htext⟩
  have hlines : ∀ line ∈ lines, ∃ cut : CutLine, cut.text = line := by
    obtain @⟨dnLine, changeLine, type, word, controls, body, hdn, hcontrols, hword, hchange,
      hbody⟩ := h
    have hbodyLines : ∀ line ∈ body, Readable line := by
      cases hbody with
      | delete => exact fun line hline => absurd hline List.not_mem_nil
      | modify hsteps => exact hsteps.readable hnames
      | modrdn hr => exact hr.readable
      | moddn hr => exact hr.readable
    intro line hline
    rcases List.mem_cons.1 hline with rfl | hline
    · exact hreadable (hdn.readable
        ⟨⟨'d', ['n'], rfl, by decide, by decide⟩, by decide, by decide⟩)
    · rcases List.mem_append.1 hline with hline | hline
      · exact (hcontrols line hline).exists_cutLine
      · rcases List.mem_cons.1 hline with rfl | hline
        · exact hreadable (hchange.readable
            ⟨⟨'c', "hangetype".toList, rfl, by decide, by decide⟩, by decide, by decide⟩)
        · obtain ⟨text, htext, rfl⟩ := List.mem_map.1 hline
          exact hreadable (hbodyLines text htext)
  exact exists_logical_of_texts hlines

end DirectoryExchange.Ldif

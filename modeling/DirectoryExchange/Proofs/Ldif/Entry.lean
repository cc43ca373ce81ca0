import DirectoryExchange.Ldif.Printer
import DirectoryExchange.Ldif.Record
import DirectoryExchange.Proofs.Base64
import DirectoryExchange.Proofs.Ldif.Layout
import DirectoryExchange.Proofs.Model.Draft

/-!
# Entries as blocks of lines

An entry is written as a block of logical lines (`entryBlock`).  A line gives back the name and
value that it was written for (`Gives.split`), and so the block gives back its entry
(`readRecord_entryBlock`), if all its names can be carried in a line (`Carriable`).
-/

namespace DirectoryExchange.Ldif

/-- A name that a line can carry in front of its colon and that is not taken for that of an
entry. -/
structure Carriable (name : String) : Prop where
  /-- The name would end at its colon. -/
  colon : ':' ∉ name.toList
  /-- The line would end at the line feed. -/
  lineFeed : '\n' ∉ name.toList
  /-- The line would go on another. -/
  space : name.toList.head? ≠ some ' '
  /-- The line would be a comment. -/
  comment : name.toList.head? ≠ some '#'
  /-- The line would begin a record. -/
  dn : ¬ sameName name "dn"

/-- Every value with the name of its attribute. -/
def namedValues (attributes : List Attribute) : List (String × Bytes) :=
  attributes.flatMap fun a => a.values.map (a.name, ·)

/-- The logical lines of an entry. -/
def entryBlock (e : Entry) : List String :=
  valueLine "dn" (Utf8.encode e.dn) ::
    ((if e.attributes.head?.any fun a => isDirective a.name then
      [valueLine "changetype" (Utf8.encode "add")]
    else []) ++
    (namedValues e.attributes).map fun p => valueLine p.1 p.2)

/-- An entry is written as the folded lines of its block. -/
theorem renderEntry_eq (e : Entry) :
    renderEntry e = unlines (foldedBlock wrapColumn (entryBlock e)) := by
  rw [unlines_foldedBlock, renderEntry, entryBlock, List.flatMap_cons, List.flatMap_append,
    List.append_assoc]
  congr 2
  · split <;> simp [renderValue]
  · simp only [namedValues, List.flatMap_map, List.flatMap_assoc]
    rfl

/-! ### One line -/

/-- Whether a value stands behind the name and its colon, on a line of its own. -/
def Gives (name : String) (value : Bytes) (line : String) : Prop :=
  ∃ behind : String, line = name ++ ":" ++ behind ∧
    '\n' ∉ behind.toList ∧ '\r' ∉ behind.toList ∧
    ∀ location, readValue location (Utf8.encode behind) = .ok value

/-- A value can be written in base64. -/
lemma gives_encoded (name : String) (value : Bytes) :
    Gives name value (name ++ ":: " ++ Base64.encode value) := by
  have hgap : ∀ c : Char, Base64.isGap c = true → c ∉ (Base64.encode value).toList := by
    intro c hc hmem
    rw [Base64.encode, String.toList_ofList] at hmem
    rw [Base64.isGap_of_mem_encodeChars value c hmem] at hc
    exact absurd hc Bool.false_ne_true
  refine ⟨": " ++ Base64.encode value, ?_, ?_, ?_, ?_⟩
  · simp [String.append_assoc, ← String.toList_inj]
  · simpa using hgap '\n' rfl
  · simpa using hgap '\r' rfl
  · intro location
    have hspace : Bytes.space ∉ Utf8.encode (Base64.encode value) := by
      rw [Utf8.encode, Utf8.mem_encodeChars_iff (by decide)]
      exact hgap ' ' rfl
    have henc : Utf8.encode (": " ++ Base64.encode value) =
        colon :: Bytes.space :: Utf8.encode (Base64.encode value) := by
      rw [Utf8.encode_append]
      rfl
    rw [henc, readValue, if_pos rfl, decodeValue, Bytes.trimSpaces_cons hspace,
      Utf8.decode?_encode]
    simp only [Base64.decode?_encode]

/-- A value that is safe can be written as it is. -/
lemma gives_plain (name : String) {value : Bytes} {text : String}
    (htext : Utf8.decode? value = some text) (hsafe : isSafe value = true) :
    Gives name value (name ++ ": " ++ text) := by
  have hoctets := Utf8.decode?_eq_some_iff.1 htext
  have hbreaks : ∀ b : UInt8, breaksLine b = true → b.toNat < 0x80 →
      Char.ofNat b.toNat ∉ text.toList := by
    intro b hb hlt hmem
    rw [← Utf8.mem_encodeChars_iff hlt] at hmem
    simp only [isSafe, Bool.and_eq_true, Bool.not_eq_true', List.any_eq_false] at hsafe
    exact hsafe.1.1.2 b (hoctets ▸ hmem) hb
  refine ⟨" " ++ text, ?_, ?_, ?_, ?_⟩
  · simp [String.append_assoc, ← String.toList_inj]
  · have hlf : '\n' ∉ text.toList := hbreaks Bytes.lineFeed rfl (by decide)
    simpa using hlf
  · have hcr : '\r' ∉ text.toList := hbreaks Bytes.carriageReturn rfl (by decide)
    simpa using hcr
  · intro location
    have henc : Utf8.encode (" " ++ text) = Bytes.space :: value := by
      rw [Utf8.encode_append, hoctets]
      rfl
    rw [henc]
    rfl

/-- A written line gives the name and value that it was written for. -/
lemma gives_valueLine (name : String) (value : Bytes) :
    Gives name value (valueLine name value) := by
  unfold valueLine
  split
  · next hvalue =>
    exact ⟨"", by simp, by simp, by simp, fun location => by rw [hvalue]; rfl⟩
  · split
    · next text htext =>
      split
      · next hsafe => exact gives_plain name htext hsafe
      · exact gives_encoded name value
    · exact gives_encoded name value

/-- A line can be read back if it begins with a name that can. -/
lemma Gives.readable {name line : String} {value : Bytes} (h : Gives name value line)
    (hname : Readable name) : Readable line := by
  obtain ⟨behind, hline, hlf, hcr, -⟩ := h
  obtain ⟨c, rest, hchars, hspace, hcomment⟩ := hname.begins
  have htoList : line.toList = name.toList ++ ':' :: behind.toList := by
    simp [hline]
  refine ⟨⟨c, rest ++ ':' :: behind.toList, ?_, hspace, hcomment⟩, ?_, ?_⟩
  · rw [htoList, hchars, List.cons_append]
  · rw [htoList]
    simp [hname.lineFeed, hlf]
  · rw [htoList]
    simp [hname.carriageReturn, hcr]

/-- A line with a name that can be carried can be read. -/
lemma readable_of_carriable {name : String} (hname : Carriable name) (hne : name ≠ "")
    (hcr : '\r' ∉ name.toList) : Readable name := by
  obtain ⟨c, rest, hchars⟩ : ∃ c rest, name.toList = c :: rest :=
    List.exists_cons_of_ne_nil fun h => hne (String.toList_eq_nil_iff.1 h)
  have hspace := hname.space
  have hcomment := hname.comment
  rw [hchars, List.head?_cons, ne_eq, Option.some.injEq] at hspace hcomment
  exact ⟨⟨c, rest, hchars, hspace, hcomment⟩, hname.lineFeed, hcr⟩

section Line

variable {l : LogicalLine} {line name : String} {value : Bytes}

/-- A line is cut behind the name that it was written for. -/
lemma Gives.cutAt? (h : Gives name value line) (htext : l.text = Utf8.encode line)
    (hcolon : ':' ∉ name.toList) :
    ∃ behind, Bytes.cutAt? colon l.text = some (Utf8.encode name, behind) ∧
      ∀ location, readValue location behind = .ok value := by
  obtain ⟨behind, hline, -, -, hvalue⟩ := h
  refine ⟨Utf8.encode behind, ?_, hvalue⟩
  have hoctets : l.text = Utf8.encode name ++ colon :: Utf8.encode behind := by
    rw [htext, hline, Utf8.encode_append, Utf8.encode_append, List.append_assoc]
    rfl
  rw [hoctets]
  refine Bytes.cutAt?_append ?_ _
  rw [Utf8.encode, Utf8.mem_encodeChars_iff (by decide)]
  exact hcolon

/-- A line has the name that it was written for. -/
lemma Gives.isNamed (h : Gives name value line) (htext : l.text = Utf8.encode line)
    (hcolon : ':' ∉ name.toList) (other : String) : l.isNamed other = sameName name other := by
  obtain ⟨behind, hcut, -⟩ := h.cutAt? htext hcolon
  simp only [LogicalLine.isNamed, hcut, Utf8.decode?_encode]

/-- A line gives back the name and value that it was written for. -/
theorem Gives.split (h : Gives name value line) (htext : l.text = Utf8.encode line)
    (hcolon : ':' ∉ name.toList) (hne : name ≠ "") : l.split = .ok (name, value) := by
  obtain ⟨behind, hcut, hvalue⟩ := h.cutAt? htext hcolon
  simp only [LogicalLine.split, hcut, Utf8.decode?_encode, if_neg hne, hvalue]
  rfl

/-- If the value is a text, the line is split into the name and the text. -/
lemma Gives.splitText {text : String} (h : Gives name (Utf8.encode text) line)
    (htext : l.text = Utf8.encode line) (hcolon : ':' ∉ name.toList) (hne : name ≠ "") :
    l.splitText = .ok (name, text) := by
  simp only [LogicalLine.splitText, h.split htext hcolon hne, bind, Except.bind,
    Utf8.decode?_encode]
  rfl

end Line

/-! ### The lines of an entry -/

/-- To push the named values one by one is to gather the attributes. -/
lemma foldl_push_namedValues (draft : EntryDraft) (attributes : List Attribute) :
    ((namedValues attributes).foldl (fun d p => d.push p.1 p.2) draft) =
      draft.gather attributes := by
  induction attributes generalizing draft with
  | nil => rfl
  | cons a rest ih =>
    rw [namedValues, List.flatMap_cons, List.foldl_append, List.foldl_map, EntryDraft.gather_cons]
    exact ih _

/-- The lines of values give every value to the draft under its name. -/
lemma gatherValues_of_texts {lines : List LogicalLine} {pairs : List (String × Bytes)}
    (htexts : lines.map (·.text) = pairs.map fun p => Utf8.encode (valueLine p.1 p.2))
    (hpairs : ∀ p ∈ pairs, Carriable p.1 ∧ p.1 ≠ "") (draft : EntryDraft) :
    gatherValues draft lines = .ok (pairs.foldl (fun d p => d.push p.1 p.2) draft) := by
  induction pairs generalizing draft lines with
  | nil =>
    obtain rfl := List.map_eq_nil_iff.1 htexts
    rfl
  | cons p pairs ih =>
    obtain ⟨l, lines, rfl, htext, htexts⟩ := List.map_eq_cons_iff.1 htexts
    obtain ⟨⟨hname, hne⟩, hpairs⟩ := List.forall_mem_cons.1 hpairs
    have hdn : l.isNamed "dn" = false := by
      rw [(gives_valueLine _ _).isNamed htext hname.colon]
      exact Bool.eq_false_iff.2 hname.dn
    rw [gatherValues, hdn, if_neg Bool.false_ne_true,
      (gives_valueLine _ _).split htext hname.colon hne, List.foldl_cons]
    exact ih htexts hpairs _

/-- Whether all names of the entry can be carried in lines. -/
def CarriableEntry (e : Entry) : Prop :=
  ∀ a ∈ e.attributes, Carriable a.name

/-- The lines of the attributes of an entry are read as the record that adds it. -/
lemma readAdd_of_texts {e : Entry} (he : CarriableEntry e) {lines : List LogicalLine}
    (htexts : lines.map (·.text) =
      (namedValues e.attributes).map fun p => Utf8.encode (valueLine p.1 p.2))
    (location : Location) : readAdd e.dn location lines = .ok (.add e) := by
  have hpairs : ∀ p ∈ namedValues e.attributes, Carriable p.1 ∧ p.1 ≠ "" := by
    intro p hp
    obtain ⟨a, ha, hp⟩ := List.mem_flatMap.1 hp
    obtain ⟨value, -, rfl⟩ := List.mem_map.1 hp
    exact ⟨he a ha, a.name_ne⟩
  simp only [readAdd, gatherValues_of_texts htexts hpairs, foldl_push_namedValues, bind,
    Except.bind, EntryDraft.build_gather, invalid]
  rfl

section

variable {e : Entry} (he : CarriableEntry e) {lines : List LogicalLine}
  (hlines : lines.map (·.text) =
    (namedValues e.attributes).map fun p => Utf8.encode (valueLine p.1 p.2))
include he hlines

/-- A change type in front says that the entry is added. -/
lemma readChange_of_changeType {l : LogicalLine}
    (htext : l.text = Utf8.encode (valueLine "changetype" (Utf8.encode "add")))
    (location : Location) : readChange e.dn location (l :: lines) = .ok (.add e) := by
  have hcolon : ':' ∉ "changetype".toList := by decide
  have hcontrol : l.isNamed "control" = false := by
    rw [(gives_valueLine _ _).isNamed htext hcolon]
    decide
  have hchange : l.isNamed "changetype" = true := by
    rw [(gives_valueLine _ _).isNamed htext hcolon]
    exact sameName_refl _
  have htrim : Blank.trim "add" = "add" := by decide
  have hlower : lowerAscii "add" = "add" := by
    rw [lowerAscii, ← String.toList_inj, String.toList_map]
    rfl
  rw [readChange, List.dropWhile_cons_of_neg (by simp [hcontrol])]
  simp only [hchange, if_true, (gives_valueLine _ _).splitText htext hcolon (by decide), bind,
    Except.bind, htrim, hlower]
  exact readAdd_of_texts he hlines location

/-- Without one the entry is added if its first attribute has not the name of a directive. -/
lemma readChange_of_attributes
    (hdirective : ¬ e.attributes.head?.any fun a => isDirective a.name) (location : Location) :
    readChange e.dn location lines = .ok (.add e) := by
  have hreadAdd := readAdd_of_texts he hlines location
  cases hattributes : e.attributes with
  | nil =>
    rw [hattributes] at hlines
    obtain rfl := List.map_eq_nil_iff.1 hlines
    exact hreadAdd
  | cons a rest =>
    obtain ⟨value, values, hvalues⟩ := List.exists_cons_of_ne_nil a.values_ne
    rw [hattributes, namedValues, List.flatMap_cons, hvalues] at hlines
    obtain ⟨l, body, rfl, htext, -⟩ := List.map_eq_cons_iff.1 hlines
    have hcolon := (he a (by rw [hattributes]; exact List.mem_cons_self)).colon
    rw [hattributes, List.head?_cons, Option.any_some, isDirective, Bool.or_eq_true,
      not_or] at hdirective
    have hcontrol : ¬ l.isNamed "control" := by
      rw [(gives_valueLine _ _).isNamed htext hcolon]
      exact hdirective.2
    have hchange : ¬ l.isNamed "changetype" := by
      rw [(gives_valueLine _ _).isNamed htext hcolon]
      exact hdirective.1
    have hdropped : (l :: body).dropWhile (·.isNamed "control") = l :: body :=
      List.dropWhile_cons_of_neg hcontrol
    rw [readChange, hdropped]
    simp only [hchange, if_false, Bool.false_eq_true]
    exact hreadAdd

end

/-- Behind the `dn` line of an entry stands the record that adds it. -/
lemma readChange_of_texts {e : Entry} (he : CarriableEntry e) {lines : List LogicalLine}
    {block : List String} (hblock : entryBlock e = valueLine "dn" (Utf8.encode e.dn) :: block)
    (htexts : lines.map (·.text) = block.map Utf8.encode) (location : Location) :
    readChange e.dn location lines = .ok (.add e) := by
  obtain rfl := (List.cons.inj hblock).2
  by_cases hdirective : e.attributes.head?.any fun a => isDirective a.name
  · rw [if_pos hdirective, List.map_append, List.map_map] at htexts
    obtain ⟨l, body, rfl, htext, hbody⟩ := List.map_eq_cons_iff.1 htexts
    exact readChange_of_changeType he hbody htext location
  · rw [if_neg hdirective, List.nil_append, List.map_map] at htexts
    exact readChange_of_attributes he htexts hdirective location

/-- The record of a block that was written for an entry adds the entry. -/
theorem readRecord_entryBlock {e : Entry} (he : CarriableEntry e) {raw : RawRecord}
    (hraw : raw.content = ((entryBlock e).map Utf8.encode, false)) (versionAllowed : Bool) :
    readRecord versionAllowed raw = (.ok (some (.add e)), []) := by
  obtain ⟨lines, orphan, position⟩ := raw
  obtain ⟨htexts, horphan⟩ := Prod.mk.inj hraw
  obtain rfl : orphan = none := by simpa using horphan
  obtain ⟨block, hblock⟩ : ∃ block, entryBlock e = valueLine "dn" (Utf8.encode e.dn) :: block :=
    ⟨_, rfl⟩
  rw [hblock, List.map_cons] at htexts
  obtain ⟨l, body, rfl, htext, hbody⟩ := List.map_eq_cons_iff.1 htexts
  have hcolon : ':' ∉ "dn".toList := by decide
  have hversion : l.isNamed "version" = false := by
    rw [(gives_valueLine _ _).isNamed htext hcolon]
    decide
  have hdn : l.isNamed "dn" = true := by
    rw [(gives_valueLine _ _).isNamed htext hcolon]
    exact sameName_refl _
  simp only [readRecord, hversion, Bool.and_false, Bool.false_eq_true, if_false, readLines, hdn,
    if_true, (gives_valueLine _ _).splitText htext hcolon (by decide), bind, Except.bind,
    readChange_of_texts he hblock hbody]
  rfl

/-- The lines of an entry can be read back, if no carriage return stands in a name. -/
lemma readable_of_mem_entryBlock {e : Entry} (he : CarriableEntry e)
    (hcr : ∀ a ∈ e.attributes, '\r' ∉ a.name.toList) :
    ∀ line ∈ entryBlock e, Readable line := by
  intro line hline
  rw [entryBlock, List.mem_cons, List.mem_append] at hline
  rcases hline with rfl | hline | hline
  · refine (gives_valueLine _ _).readable ⟨⟨'d', ['n'], rfl, ?_, ?_⟩, ?_, ?_⟩ <;> decide
  · split at hline
    · obtain rfl := List.mem_singleton.1 hline
      refine (gives_valueLine _ _).readable ⟨⟨'c', "hangetype".toList, rfl, ?_, ?_⟩, ?_, ?_⟩ <;>
        decide
    · exact absurd hline List.not_mem_nil
  · obtain ⟨p, hp, rfl⟩ := List.mem_map.1 hline
    obtain ⟨a, ha, hp⟩ := List.mem_flatMap.1 hp
    obtain ⟨value, -, rfl⟩ := List.mem_map.1 hp
    exact (gives_valueLine _ _).readable (readable_of_carriable (he a ha) a.name_ne (hcr a ha))

end DirectoryExchange.Ldif

import DirectoryExchange.Proofs.Base64
import DirectoryExchange.Proofs.Model.ObjectClass
import DirectoryExchange.Proofs.Writer
import DirectoryExchange.Proofs.Xml.Escape

/-!
# The characters of a document

XML has no controls but tab, line feed and carriage return, and U+FFFE and U+FFFF are not among its
characters either.  Markup and base64 are made of characters that it has, and no entity hides any
other, so a document is made of them if and only if all is that goes into it as text: the
distinguished names, the names of attributes and the values that are not put into base64
(`clean_writeDocument_iff`).
-/

namespace DirectoryExchange

namespace Xml

/-- Whether XML has the character. -/
def isCharacter (c : Char) : Bool :=
  c == '\t' || c == '\n' || c == '\r' || (0x20 ≤ c.toNat && c.toNat ≤ 0xD7FF) ||
    (0xE000 ≤ c.toNat && c.toNat ≤ 0xFFFD) || (0x10000 ≤ c.toNat && c.toNat ≤ 0x10FFFF)

/-- Whether a text is made of characters that XML has. -/
def Clean (s : String) : Prop := s.toList.all isCharacter = true

instance (s : String) : Decidable (Clean s) := inferInstanceAs (Decidable (_ = true))

lemma clean_iff {s : String} : Clean s ↔ ∀ c ∈ s.toList, isCharacter c = true := List.all_eq_true

@[simp] lemma clean_append_iff {s t : String} : Clean (s ++ t) ↔ Clean s ∧ Clean t := by
  rw [Clean, String.toList_append, List.all_append, Bool.and_eq_true, Clean, Clean]

lemma clean_join_iff {ss : List String} : Clean (String.join ss) ↔ ∀ s ∈ ss, Clean s := by
  induction ss with
  | nil => simp [Clean]
  | cons s ss ih => rw [String.join_cons, clean_append_iff, ih, List.forall_mem_cons]

/-- An entity stands for a character that XML has, and is written in such. -/
lemma clean_escape_iff {s : String} : Clean (escape s) ↔ Clean s := by
  have hentities : ∀ p ∈ entities,
      isCharacter p.1 = true ∧ ('&' :: p.2 ++ [';']).all isCharacter = true := by
    decide
  have hescape : ∀ c : Char, (∀ x ∈ escapeChar c, isCharacter x = true) ↔ isCharacter c = true := by
    intro c
    rcases escapeChar_cases c with ⟨name, hname, hc⟩ | ⟨-, hc⟩
    · obtain ⟨hself, hwritten⟩ := hentities _ hname
      rw [hc]
      exact iff_of_true (List.all_eq_true.1 hwritten) hself
    · rw [hc, List.forall_mem_singleton]
  simp only [clean_iff, escape, escapeChars, String.toList_ofList, List.forall_mem_flatMap, hescape]

end Xml

namespace Dsml

open Xml (isCharacter Clean clean_iff clean_append_iff clean_join_iff clean_escape_iff)

/-- The indentation of a line is clean. -/
lemma clean_line_iff {indent : Nat} {text : String} : Clean (line indent text) ↔ Clean text := by
  have hindent : Clean (String.ofList (List.replicate indent '\t')) := by
    rw [clean_iff, String.toList_ofList]
    intro c hc
    rw [List.eq_of_mem_replicate hc]
    decide
  have hend : Clean "\n" := by decide
  rw [line, clean_append_iff, clean_append_iff]
  simp only [hindent, hend, true_and, and_true]

lemma clean_base64 (v : Bytes) : Clean (Base64.encode v) := by
  rw [clean_iff, Base64.encode, String.toList_ofList]
  exact Base64.forall_mem_encodeChars (by decide) (by decide +kernel) v

/-- Of the characters that are taken to come back, XML has all but two. -/
lemma isCharacter_iff {c : Char} (h : (c == '\t' || c == '\n' || ' ' ≤ c) = true) :
    isCharacter c = true ↔ c ≠ '\uFFFE' ∧ c ≠ '\uFFFF' := by
  have hvalid : c.toNat < 0xD800 ∨ 0xDFFF < c.toNat ∧ c.toNat < 0x110000 := c.valid
  have hne : ∀ x : Char, c ≠ x ↔ c.toNat ≠ x.toNat := fun x => not_congr Char.toNat_inj.symm
  simp only [Bool.or_eq_true, beq_iff_eq, decide_eq_true_eq, or_assoc] at h
  rcases h with rfl | rfl | h
  · decide
  · decide
  · have hprintable : 0x20 ≤ c.toNat := h
    rw [hne, hne]
    change _ ↔ c.toNat ≠ 0xFFFE ∧ c.toNat ≠ 0xFFFF
    simp only [isCharacter, Bool.or_eq_true, Bool.and_eq_true, beq_iff_eq, decide_eq_true_eq,
      or_assoc]
    constructor
    · rintro (rfl | rfl | rfl | h | h | h)
      · decide
      · decide
      · decide
      · omega
      · omega
      · omega
    · rintro ⟨h₁, h₂⟩
      have hranges : (0x20 ≤ c.toNat ∧ c.toNat ≤ 0xD7FF) ∨ (0xE000 ≤ c.toNat ∧ c.toNat ≤ 0xFFFD) ∨
          (0x10000 ≤ c.toNat ∧ c.toNat ≤ 0x10FFFF) := by
        omega
      exact .inr (.inr (.inr hranges))

/-- Whether XML has the characters of a value, if it is written as text. -/
def CleanValue (v : Bytes) : Prop :=
  isXmlSafe v = true → ∀ text, Utf8.decode? v = some text →
    '\uFFFE' ∉ text.toList ∧ '\uFFFF' ∉ text.toList

/-- A value that comes back is a text that XML has unless one of those two is in it. -/
lemma clean_iff_of_isXmlSafe {v : Bytes} {text : String} (hdecode : Utf8.decode? v = some text)
    (hsafe : isXmlSafe v = true) :
    Clean text ↔ '\uFFFE' ∉ text.toList ∧ '\uFFFF' ∉ text.toList := by
  have hplain : ∀ c ∈ text.toList, (c == '\t' || c == '\n' || ' ' ≤ c) = true := by
    rw [isXmlSafe, hdecode] at hsafe
    exact List.all_eq_true.1 hsafe
  constructor
  · intro h
    exact ⟨fun hmem => ((isCharacter_iff (hplain _ hmem)).1 (clean_iff.1 h _ hmem)).1 rfl,
      fun hmem => ((isCharacter_iff (hplain _ hmem)).1 (clean_iff.1 h _ hmem)).2 rfl⟩
  · rintro ⟨h₁, h₂⟩
    refine clean_iff.2 fun c hc => ?_
    refine (isCharacter_iff (hplain c hc)).2 ⟨?_, ?_⟩
    · rintro rfl
      exact h₁ hc
    · rintro rfl
      exact h₂ hc

/-- The element of a value is as clean as what stands for the value in it. -/
lemma clean_valueElement_iff {tag : String} (htag : Clean tag) {v : Bytes} :
    Clean (valueElement tag v) ↔ CleanValue v := by
  have hbracket : Clean "<" := by decide
  have hclose : Clean "</" := by decide
  have hend : Clean ">" := by decide
  have hattribute : Clean " encoding=\"base64\">" := by decide
  have hplain : ∀ text : String,
      Clean ("<" ++ tag ++ ">" ++ Xml.escape text ++ "</" ++ tag ++ ">") ↔ Clean text := by
    intro text
    simp only [clean_append_iff, clean_escape_iff, htag, hbracket, hclose, hend, true_and,
      and_true]
  have hencoded : Clean ("<" ++ tag ++ " encoding=\"base64\">" ++ Base64.encode v ++ "</" ++ tag ++
      ">") := by
    simp only [clean_append_iff, htag, hbracket, hclose, hend, hattribute, clean_base64,
      and_self]
  unfold valueElement CleanValue
  cases hdecode : Utf8.decode? v with
  | none => exact iff_of_true hencoded fun _ _ h => absurd h (by simp)
  | some text =>
    simp only [Option.some.injEq, forall_eq']
    split
    · next hsafe =>
      rw [← clean_iff_of_isXmlSafe hdecode hsafe]
      exact (hplain text).trans (imp_iff_right hsafe).symm
    · next hsafe => exact iff_of_true hencoded fun h => absurd h hsafe

/-- Whether XML has the characters of all that is written of an entry as text. -/
structure CleanEntry (e : Entry) : Prop where
  /-- The distinguished name. -/
  dn : Clean e.dn
  /-- The names of the attributes; that of the object classes is not written. -/
  names : ∀ a ∈ e.attributes, a.isObjectClass = false → Clean a.name
  /-- The values. -/
  values : ∀ a ∈ e.attributes, ∀ v ∈ a.values, CleanValue v

/-- The lines of values are clean if each value is. -/
lemma clean_valueLines_iff {tag : String} (htag : Clean tag) {values : List Bytes} :
    Clean (valueLines tag values) ↔ ∀ v ∈ values, CleanValue v := by
  simp only [valueLines, clean_join_iff, List.forall_mem_map, clean_line_iff,
    clean_valueElement_iff htag]

lemma clean_objectClassLines_iff {values : List Bytes} :
    Clean (objectClassLines values) ↔ ∀ v ∈ values, CleanValue v := by
  rw [objectClassLines]
  split
  · next h =>
    subst h
    exact iff_of_true (by decide) (by simp)
  · have hopen : Clean "<dsml:objectclass>" := by decide
    have hclose : Clean "</dsml:objectclass>" := by decide
    simp only [clean_append_iff, clean_line_iff, hopen, hclose, true_and, and_true]
    exact clean_valueLines_iff (by decide)

/-- The lines of an attribute are clean if its name and its values are. -/
lemma clean_attributeLines_iff {a : Attribute} :
    Clean (attributeLines a) ↔ Clean a.name ∧ ∀ v ∈ a.values, CleanValue v := by
  have hlines : attributeLines a = line 3 ("<dsml:attr name=\"" ++ Xml.escape a.name ++ "\">") ++
      valueLines "dsml:value" a.values ++ line 3 "</dsml:attr>" := rfl
  have hopen : Clean "<dsml:attr name=\"" := by decide
  have hend : Clean "\">" := by decide
  have hclose : Clean "</dsml:attr>" := by decide
  rw [hlines]
  simp only [clean_append_iff, clean_line_iff, clean_escape_iff, hopen, hend, hclose,
    true_and, and_true, clean_valueLines_iff (show Clean "dsml:value" by decide)]

/-- The lines of an entry are clean if the entry is. -/
lemma clean_entryLines_iff {e : Entry} : Clean (entryLines e) ↔ CleanEntry e := by
  have hlines : entryLines e = line 2 ("<dsml:entry dn=\"" ++ Xml.escape e.dn ++ "\">") ++
      objectClassLines e.objectClasses ++
      String.join ((e.attributes.filter fun a => !a.isObjectClass).map attributeLines) ++
      line 2 "</dsml:entry>" := rfl
  have hopen : Clean "<dsml:entry dn=\"" := by decide
  have hend : Clean "\">" := by decide
  have hclose : Clean "</dsml:entry>" := by decide
  rw [hlines]
  simp only [clean_append_iff, clean_line_iff, clean_escape_iff, hopen, hend, hclose,
    true_and, and_true, clean_objectClassLines_iff, clean_join_iff, List.forall_mem_map,
    clean_attributeLines_iff, List.mem_filter, Bool.not_eq_true', Entry.mem_objectClasses_iff]
  constructor
  · rintro ⟨⟨hdn, hclasses⟩, hothers⟩
    refine ⟨hdn, fun a ha hname => (hothers a ⟨ha, hname⟩).1, fun a ha v hv => ?_⟩
    cases hname : a.isObjectClass with
    | true => exact hclasses v ⟨a, ha, hname, hv⟩
    | false => exact (hothers a ⟨ha, hname⟩).2 v hv
  · rintro ⟨hdn, hnames, hvalues⟩
    refine ⟨⟨hdn, ?_⟩, fun a ⟨ha, hname⟩ => ⟨hnames a ha hname, hvalues a ha⟩⟩
    rintro v ⟨a, ha, -, hv⟩
    exact hvalues a ha v hv

/-- The text of a document. -/
def documentText (entries : List Entry) : String :=
  prologLines ++ String.join (entries.map entryLines) ++ epilogueLines

/-- Entries are written as the octets of their lines. -/
lemma renderFrom_eq_encode (written : Nat) (entries : List Entry) :
    Format.dsml.renderFrom written entries =
      Utf8.encode (String.join (entries.map entryLines)) := by
  induction entries generalizing written with
  | nil => rfl
  | cons e entries ih =>
    rw [Format.renderFrom, ih, List.map_cons, String.join_cons, Utf8.encode_append]
    rfl

/-- A document is written as the octets of its text. -/
lemma render_eq_encode (entries : List Entry) :
    Format.dsml.render entries = Utf8.encode (documentText entries) := by
  have hprolog : Format.dsml.prolog?.getD [] = Utf8.encode prologLines := by
    rw [Format.prolog?, Option.getD_some]
  have hepilogue : Format.dsml.epilogue?.getD [] = Utf8.encode epilogueLines := by
    rw [Format.epilogue?, Option.getD_some]
  rw [Format.render, hprolog, hepilogue, renderFrom_eq_encode, documentText, Utf8.encode_append,
    Utf8.encode_append]

/-- Prolog and epilogue are clean, so that it comes down to the entries. -/
lemma clean_documentText_iff {entries : List Entry} :
    Clean (documentText entries) ↔ ∀ e ∈ entries, CleanEntry e := by
  have hprolog : Clean prologLines := by decide +kernel
  have hepilogue : Clean epilogueLines := by decide +kernel
  simp only [documentText, clean_append_iff, hprolog, hepilogue, true_and, and_true,
    clean_join_iff, List.forall_mem_map, clean_entryLines_iff]

/-- A document is written whatever the entries are.  XML has all its characters if and only if it
has those of the names and of the values that are written as text; it has those of any such value
but for two. -/
theorem clean_writeDocument_iff {ω : Type} (output : Output ω) (houtput : output.sink.Reliable)
    (entries : List Entry) :
    ∃ w document, Writer.writeDocument .dsml output entries = (.ok (), w) ∧
      w.output.written = output.written ++ Utf8.encode document ∧
      (Clean document ↔ ∀ e ∈ entries, CleanEntry e) := by
  obtain ⟨w, hwrite, hwritten⟩ := Writer.writeDocument_of_reliable houtput .dsml entries
  rw [render_eq_encode] at hwritten
  exact ⟨w, documentText entries, hwrite, hwritten, clean_documentText_iff⟩

/-- A control among the values is put into base64, as an octet that is no text is. -/
theorem clean_writeDocument_controls :
    let e : Entry := ⟨"cn=a", [⟨"cn", [[0x61, 0x01], [0xFF]], by decide, by decide⟩], by decide,
      by decide⟩
    ∃ w document, Writer.writeDocument .dsml ⟨Sink.boundless, (), [], 0⟩ [e] = (.ok (), w) ∧
      w.output.written = Utf8.encode document ∧ Clean document := by
  intro e
  obtain ⟨w, document, hwrite, hwritten, hdocument⟩ :=
    clean_writeDocument_iff ⟨Sink.boundless, (), [], 0⟩ Sink.reliable_boundless [e]
  have hentry : CleanEntry e := by
    have hvalues : ∀ v ∈ ([[0x61, 0x01], [0xFF]] : List Bytes), isXmlSafe v = false := by decide
    refine ⟨by decide, by decide, ?_⟩
    intro a ha v hv hsafe
    obtain rfl := List.mem_singleton.1 ha
    rw [hvalues v hv] at hsafe
    exact absurd hsafe Bool.false_ne_true
  exact ⟨w, document, hwrite, hwritten, hdocument.2 (List.forall_mem_singleton.2 hentry)⟩

/-- A value of U+FFFE is written as text, though XML has no such character. -/
theorem not_clean_writeDocument_noncharacter :
    let e : Entry := ⟨"cn=a", [⟨"cn", [[0xEF, 0xBF, 0xBE]], by decide, by decide⟩], by decide,
      by decide⟩
    ∃ w document, Writer.writeDocument .dsml ⟨Sink.boundless, (), [], 0⟩ [e] = (.ok (), w) ∧
      w.output.written = Utf8.encode document ∧ ¬ Clean document := by
  intro e
  let output : Output Unit := ⟨Sink.boundless, (), [], 0⟩
  have houtput : output.sink.Reliable := Sink.reliable_boundless
  obtain ⟨w, hwrite, hwritten⟩ := Writer.writeDocument_of_reliable houtput .dsml [e]
  rw [render_eq_encode, List.nil_append] at hwritten
  refine ⟨w, documentText [e], hwrite, hwritten, fun h => ?_⟩
  have hvalue : CleanValue [0xEF, 0xBF, 0xBE] :=
    (clean_documentText_iff.1 h e (by simp)).values _ (List.mem_singleton_self _) _
      (List.mem_singleton_self _)
  have hdecode : Utf8.decode? [0xEF, 0xBF, 0xBE] = some "\uFFFE" := by decide
  exact (hvalue (by decide) _ hdecode).1 (by decide)

end Dsml

end DirectoryExchange

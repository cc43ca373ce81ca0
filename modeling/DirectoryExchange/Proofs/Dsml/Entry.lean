import DirectoryExchange.Proofs.Base64
import DirectoryExchange.Proofs.Dsml.Pieces

/-!
# Entries as pieces

An entry is printed as pieces, a line for every tag (`renderEntry_eq`).  Every tag among them is
read as such (`proper_entryPieces`), and every end tag has its start tag (`nest_entryPieces`).
-/

namespace DirectoryExchange.Dsml

open Xml

/-! ### The pieces -/

/-- The pieces on a line of their own, indented by so many tabs. -/
def linePieces (indent : Nat) (pieces : List Piece) : List Piece :=
  .data (String.ofList (List.replicate indent '\t')) :: pieces ++ [.data "\n"]

/-- The element of a value. -/
def valuePieces (word : String) (value : Bytes) : List Piece :=
  match Utf8.decode? value with
  | some text =>
    if isXmlSafe value then [.opening word [], .data text, .closing word]
    else [.opening word [("encoding", "base64")], .data (Base64.encode value), .closing word]
  | none => [.opening word [("encoding", "base64")], .data (Base64.encode value), .closing word]

/-- The elements of values, each on a line. -/
def valuesPieces (word : String) (values : List Bytes) : List Piece :=
  values.flatMap fun value => linePieces 4 (valuePieces word value)

/-- The element of the object classes, if there are any. -/
def objectClassPieces (values : List Bytes) : List Piece :=
  if values = [] then []
  else
    linePieces 3 [.opening "objectclass" []] ++ valuesPieces "oc-value" values ++
      linePieces 3 [.closing "objectclass"]

/-- The element of an attribute. -/
def attributePieces (a : Attribute) : List Piece :=
  linePieces 3 [.opening "attr" [("name", a.name)]] ++ valuesPieces "value" a.values ++
    linePieces 3 [.closing "attr"]

/-- The element of an entry. -/
def entryPieces (e : Entry) : List Piece :=
  linePieces 2 [.opening "entry" [("dn", e.dn)]] ++ objectClassPieces e.objectClasses ++
    (e.attributes.filter fun a => !a.isObjectClass).flatMap attributePieces ++
    linePieces 2 [.closing "entry"]

/-- The element of an entry down to its end tag. -/
def entryOpening (e : Entry) : List Piece :=
  linePieces 2 [.opening "entry" [("dn", e.dn)]] ++ objectClassPieces e.objectClasses ++
    (e.attributes.filter fun a => !a.isObjectClass).flatMap attributePieces ++
    [.data (String.ofList (List.replicate 2 '\t'))]

/-- The pieces of an entry end with its end tag and the end of the line. -/
lemma entryPieces_eq (e : Entry) :
    entryPieces e = entryOpening e ++ [.closing "entry", .data "\n"] := by
  simp [entryPieces, entryOpening, linePieces]

/-- The octets of pieces. -/
def octets (pieces : List Piece) : Bytes := pieces.flatMap Piece.octets

@[simp] lemma octets_nil : octets [] = [] := rfl

@[simp] lemma octets_cons (p : Piece) (pieces : List Piece) :
    octets (p :: pieces) = p.octets ++ octets pieces := rfl

@[simp] lemma octets_append (pieces more : List Piece) :
    octets (pieces ++ more) = octets pieces ++ octets more :=
  List.flatMap_append

/-! ### Printing -/

/-- Texts that are printed one after the other are printed as their pieces. -/
lemma encode_join {α : Type} {text : α → String} {pieces : α → List Piece}
    (h : ∀ x, Utf8.encode (text x) = octets (pieces x)) (xs : List α) :
    Utf8.encode (String.join (xs.map text)) = octets (xs.flatMap pieces) := by
  induction xs with
  | nil => rw [List.map_nil, String.join_nil]; rfl
  | cons x xs ih =>
    rw [List.map_cons, String.join_cons, Utf8.encode_append, h, ih, List.flatMap_cons,
      octets_append]

/-- A line is printed as its pieces, with indentation in front and a line end behind. -/
lemma encode_line {text : String} {pieces : List Piece} (h : Utf8.encode text = octets pieces)
    (indent : Nat) : Utf8.encode (line indent text) = octets (linePieces indent pieces) := by
  have htab : '\t' ∉ entities.map (·.1) := by decide
  have htabs : escape (String.ofList (List.replicate indent '\t')) =
      String.ofList (List.replicate indent '\t') := by
    refine escape_eq_self ?_
    intro c hc
    rw [String.toList_ofList] at hc
    rw [List.eq_of_mem_replicate hc]
    exact htab
  have hend : escape "\n" = "\n" := rfl
  rw [line, Utf8.encode_append, Utf8.encode_append, h, linePieces, octets_append, octets_cons,
    octets_cons, octets_nil, List.append_nil, Piece.octets, Piece.octets, htabs, hend]

/-- There is nothing to escape in base64. -/
lemma escape_base64 (value : Bytes) : escape (Base64.encode value) = Base64.encode value := by
  have hdigits : ∀ n < 64, Base64.digit n ∉ entities.map (·.1) := by decide +kernel
  refine escape_eq_self ?_
  rw [Base64.encode, String.toList_ofList]
  exact Base64.forall_mem_encodeChars (by decide) hdigits value

lemma octets_data (text : String) : (Piece.data text).octets = Utf8.encode (escape text) := rfl

/-- A start tag without attributes as it is printed. -/
lemma octets_bare (word : String) :
    (Piece.opening word []).octets = Utf8.encode ("<" ++ ("dsml:" ++ word) ++ ">") := by
  have hopen : Utf8.encode "<" = [openBracket] := rfl
  have hclose : Utf8.encode ">" = [closeBracket] := rfl
  simp [Utf8.encode_append, Piece.octets, tagContent, qualified, hopen, hclose]

/-- A start tag with an attribute as it is printed. -/
lemma octets_opening (word key value : String) :
    (Piece.opening word [(key, value)]).octets =
      Utf8.encode ("<" ++ ("dsml:" ++ word) ++ " " ++ key ++ "=\"" ++ escape value ++ "\">") := by
  have hopen : Utf8.encode "<" = [openBracket] := rfl
  have hclose : Utf8.encode "\">" = [doubleQuote, closeBracket] := rfl
  have hspace : Utf8.encode " " = [Bytes.space] := rfl
  have hequals : Utf8.encode "=\"" = [equalsSign, doubleQuote] := rfl
  simp [Utf8.encode_append, Piece.octets, tagContent, qualified, writtenAttribute, hopen, hclose,
    hspace, hequals]

/-- An end tag as it is printed. -/
lemma octets_closing (word : String) :
    (Piece.closing word).octets = Utf8.encode ("</" ++ ("dsml:" ++ word) ++ ">") := by
  have hopen : Utf8.encode "</" = [openBracket, slash] := rfl
  have hclose : Utf8.encode ">" = [closeBracket] := rfl
  simp [Utf8.encode_append, Piece.octets, qualified, hopen, hclose]

/-- The element of a value is printed as its pieces. -/
lemma encode_valueElement (word : String) (value : Bytes) :
    Utf8.encode (valueElement ("dsml:" ++ word) value) = octets (valuePieces word value) := by
  have hplain : ∀ text, Utf8.encode ("<" ++ ("dsml:" ++ word) ++ ">" ++ escape text ++ "</" ++
      ("dsml:" ++ word) ++ ">") = octets [.opening word [], .data text, .closing word] := by
    intro text
    simp only [octets_cons, octets_nil, octets_bare, octets_closing, octets_data,
      Utf8.encode_append, List.append_nil, List.append_assoc]
  have hencoded : Utf8.encode ("<" ++ ("dsml:" ++ word) ++ " encoding=\"base64\">" ++
      Base64.encode value ++ "</" ++ ("dsml:" ++ word) ++ ">") =
      octets [.opening word [("encoding", "base64")], .data (Base64.encode value),
        .closing word] := by
    have hkey : " encoding=\"base64\">" =
        " " ++ "encoding" ++ "=\"" ++ escape "base64" ++ "\">" := by
      decide
    simp only [hkey, octets_cons, octets_nil, octets_opening, octets_closing, octets_data,
      escape_base64, Utf8.encode_append, List.append_nil, List.append_assoc]
  unfold valueElement valuePieces
  cases Utf8.decode? value with
  | none => exact hencoded
  | some text =>
    simp only
    split
    · exact hplain text
    · exact hencoded

lemma encode_valueLines (word : String) (values : List Bytes) :
    Utf8.encode (valueLines ("dsml:" ++ word) values) = octets (valuesPieces word values) :=
  encode_join (fun value => encode_line (encode_valueElement word value) 4) values

/-- A line of a single tag. -/
lemma encode_tagLine {text : String} {piece : Piece} (h : Utf8.encode text = piece.octets)
    (indent : Nat) : Utf8.encode (line indent text) = octets (linePieces indent [piece]) := by
  refine encode_line ?_ indent
  rw [h, octets_cons, octets_nil, List.append_nil]

/-- The lines of the object classes are printed as their pieces. -/
lemma encode_objectClassLines (values : List Bytes) :
    Utf8.encode (objectClassLines values) = octets (objectClassPieces values) := by
  have hopen : Utf8.encode "<dsml:objectclass>" = (Piece.opening "objectclass" []).octets := by
    decide
  have hclose : Utf8.encode "</dsml:objectclass>" = (Piece.closing "objectclass").octets := by
    decide
  have hvalues : Utf8.encode (valueLines "dsml:oc-value" values) =
      octets (valuesPieces "oc-value" values) := encode_valueLines "oc-value" values
  unfold objectClassLines objectClassPieces
  split
  · rfl
  · rw [Utf8.encode_append, Utf8.encode_append, octets_append, octets_append,
      encode_tagLine hopen, encode_tagLine hclose, hvalues]

/-- The lines of an attribute are printed as its pieces. -/
lemma encode_attributeLines (a : Attribute) :
    Utf8.encode (attributeLines a) = octets (attributePieces a) := by
  have hopen : Utf8.encode ("<dsml:attr name=\"" ++ escape a.name ++ "\">") =
      (Piece.opening "attr" [("name", a.name)]).octets := by
    have hliteral :
        "<" ++ ("dsml:" ++ "attr") ++ " " ++ "name" ++ "=\"" = "<dsml:attr name=\"" := rfl
    rw [octets_opening, hliteral]
  have hclose : Utf8.encode "</dsml:attr>" = (Piece.closing "attr").octets := by decide
  have hvalues : Utf8.encode (valueLines "dsml:value" a.values) =
      octets (valuesPieces "value" a.values) := encode_valueLines "value" a.values
  have hlines : attributeLines a = line 3 ("<dsml:attr name=\"" ++ escape a.name ++ "\">") ++
      valueLines "dsml:value" a.values ++ line 3 "</dsml:attr>" := rfl
  rw [hlines, Utf8.encode_append, Utf8.encode_append, attributePieces, octets_append,
    octets_append, encode_tagLine hopen, encode_tagLine hclose, hvalues]

/-- An entry is printed as its pieces. -/
theorem renderEntry_eq (e : Entry) : renderEntry e = octets (entryPieces e) := by
  have hopen : Utf8.encode ("<dsml:entry dn=\"" ++ escape e.dn ++ "\">") =
      (Piece.opening "entry" [("dn", e.dn)]).octets := by
    have hliteral : "<" ++ ("dsml:" ++ "entry") ++ " " ++ "dn" ++ "=\"" = "<dsml:entry dn=\"" := rfl
    rw [octets_opening, hliteral]
  have hclose : Utf8.encode "</dsml:entry>" = (Piece.closing "entry").octets := by decide
  have hlines : entryLines e = line 2 ("<dsml:entry dn=\"" ++ escape e.dn ++ "\">") ++
      objectClassLines e.objectClasses ++
      String.join ((e.attributes.filter fun a => !a.isObjectClass).map attributeLines) ++
      line 2 "</dsml:entry>" := rfl
  rw [renderEntry, hlines, Utf8.encode_append, Utf8.encode_append, Utf8.encode_append,
    entryPieces, octets_append, octets_append, octets_append, encode_tagLine hopen,
    encode_objectClassLines, encode_join encode_attributeLines, encode_tagLine hclose]

/-! ### The tags fit -/

/-- A line is made of proper pieces if what stands in it is. -/
lemma proper_linePieces {pieces : List Piece} (h : ∀ p ∈ pieces, p.Proper) (indent : Nat) :
    ∀ p ∈ linePieces indent pieces, p.Proper := by
  intro p hp
  rw [linePieces, List.mem_append, List.mem_cons, List.mem_singleton] at hp
  rcases hp with (rfl | hp) | rfl
  · trivial
  · exact h p hp
  · trivial

lemma key_encoding : Key "encoding" := ⟨by decide, by decide, fun _ => rfl⟩

lemma key_name : Key "name" := ⟨by decide, by decide, fun _ => rfl⟩

lemma key_dn : Key "dn" := ⟨by decide, by decide, fun _ => rfl⟩

/-- A start tag of a word with one attribute is read as such, whatever the value is. -/
lemma proper_opening {word key : String} (hword : IsWord word) (hkey : Key key) (value : String) :
    (Piece.opening word [(key, value)]).Proper :=
  ⟨hword, by simpa using hkey, List.nodup_cons.2 ⟨List.not_mem_nil, List.nodup_nil⟩⟩

lemma proper_bare {word : String} (hword : IsWord word) : (Piece.opening word []).Proper :=
  ⟨hword, by simp, List.nodup_nil⟩

lemma proper_closing {word : String} (hword : IsWord word) : (Piece.closing word).Proper := hword

/-- The tags around a value are read as such. -/
lemma proper_valuePieces {word : String} (hword : IsWord word) (value : Bytes) :
    ∀ p ∈ valuePieces word value, p.Proper := by
  have hthree : ∀ {first : Piece} {text : String}, first.Proper →
      ∀ p ∈ [first, .data text, .closing word], p.Proper := by
    intro first text hfirst p hp
    simp only [List.mem_cons, List.not_mem_nil, or_false] at hp
    rcases hp with rfl | rfl | rfl
    · exact hfirst
    · trivial
    · exact hword
  unfold valuePieces
  split
  · split
    · exact hthree (proper_bare hword)
    · exact hthree (proper_opening hword key_encoding "base64")
  · exact hthree (proper_opening hword key_encoding "base64")

lemma proper_valuesPieces {word : String} (hword : IsWord word) (values : List Bytes) :
    ∀ p ∈ valuesPieces word values, p.Proper := by
  intro p hp
  obtain ⟨value, -, hp⟩ := List.mem_flatMap.1 hp
  exact proper_linePieces (proper_valuePieces hword value) 4 p hp

lemma forall_mem_append {P : Piece → Prop} {pieces more : List Piece} (h : ∀ p ∈ pieces, P p)
    (hmore : ∀ p ∈ more, P p) : ∀ p ∈ pieces ++ more, P p :=
  fun p hp => (List.mem_append.1 hp).elim (h p) (hmore p)

lemma proper_line_of {piece : Piece} (h : piece.Proper) (indent : Nat) :
    ∀ p ∈ linePieces indent [piece], p.Proper :=
  proper_linePieces (by simpa using h) indent

/-- Every tag of an entry is read as such. -/
theorem proper_entryPieces (e : Entry) : ∀ p ∈ entryPieces e, p.Proper := by
  have hobject : ∀ p ∈ objectClassPieces e.objectClasses, p.Proper := by
    unfold objectClassPieces
    split
    · exact fun p hp => absurd hp List.not_mem_nil
    · refine forall_mem_append (forall_mem_append ?_ ?_) ?_
      · exact proper_line_of (proper_bare (by decide)) 3
      · exact proper_valuesPieces (by decide) _
      · exact proper_line_of (proper_closing (by decide)) 3
  have hattributes : ∀ p ∈ (e.attributes.filter fun a => !a.isObjectClass).flatMap attributePieces,
      p.Proper := by
    intro p hp
    obtain ⟨a, -, hp⟩ := List.mem_flatMap.1 hp
    refine forall_mem_append (forall_mem_append ?_ ?_) ?_ p hp
    · exact proper_line_of (proper_opening (by decide) key_name a.name) 3
    · exact proper_valuesPieces (by decide) _
    · exact proper_line_of (proper_closing (by decide)) 3
  refine forall_mem_append (forall_mem_append (forall_mem_append ?_ hobject) hattributes) ?_
  · exact proper_line_of (proper_opening (by decide) key_dn e.dn) 2
  · exact proper_line_of (proper_closing (by decide)) 2

/-- The layout of a line opens no element. -/
lemma nest_linePieces (words : List String) (indent : Nat) (pieces : List Piece) :
    nest words (linePieces indent pieces) = nest words pieces := by
  rw [linePieces, List.cons_append, nest, nest_append]
  cases nest words pieces <;> rfl

/-- The elements of values are closed one by one. -/
lemma nest_valuesPieces {words : List String} (hroot : "dsml" ∈ words) {word : String}
    (hword : word ≠ "dsml") (values : List Bytes) :
    nest words (valuesPieces word values) = some words := by
  have hvalue : ∀ value, nest words (valuePieces word value) = some words := by
    intro value
    unfold valuePieces
    split
    · split <;> simp [nest, closeElement, hword, hroot]
    · simp [nest, closeElement, hword, hroot]
  induction values with
  | nil => rfl
  | cons value values ih =>
    rw [valuesPieces, List.flatMap_cons, nest_append, nest_linePieces, hvalue, Option.bind_some]
    exact ih

/-- The elements of attributes are closed one by one. -/
lemma nest_attributePieces {words : List String} (hroot : "dsml" ∈ words)
    (attributes : List Attribute) :
    nest words (attributes.flatMap attributePieces) = some words := by
  induction attributes with
  | nil => rfl
  | cons a attributes ih =>
    have hattr : "dsml" ∈ "attr" :: words := List.mem_cons_of_mem _ hroot
    simp [attributePieces, nest_append, nest_linePieces, nest, hroot, closeElement,
      nest_valuesPieces hattr, ih]

/-- The tags of an entry fit. -/
theorem nest_entryPieces {words : List String} (hroot : "dsml" ∈ words) (e : Entry) :
    nest words (entryPieces e) = some words := by
  have hentry : "dsml" ∈ "entry" :: words := List.mem_cons_of_mem _ hroot
  have hobject : nest ("entry" :: words) (objectClassPieces e.objectClasses) =
      some ("entry" :: words) := by
    unfold objectClassPieces
    split
    · rfl
    · simp [nest_append, nest_linePieces, nest, hroot, closeElement,
        nest_valuesPieces (List.mem_cons_of_mem _ hentry)]
  simp [entryPieces, nest_append, nest_linePieces, nest, hroot, closeElement, hobject,
    nest_attributePieces hentry]

end DirectoryExchange.Dsml

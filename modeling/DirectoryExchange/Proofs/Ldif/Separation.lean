import DirectoryExchange.Format
import DirectoryExchange.Proofs.Ldif.Entry

/-!
# Blank lines between records

The record of an entry neither begins nor ends with a blank line (`framed_renderEntry`), so the line
feed that is written in front of every record but the first makes the one blank line between two of
them (`renderFrom_eq_intercalate`).
-/

namespace DirectoryExchange.Ldif

/-- Whether the octets are lines of which neither the first nor the last is blank. -/
structure Framed (octets : Bytes) : Prop where
  /-- There is something on the first line. -/
  begins : ∃ b rest, octets = b :: rest ∧ b ≠ Bytes.lineFeed ∧ b ≠ Bytes.carriageReturn
  /-- There is something on the last line, which is over. -/
  ends : ∃ front b, octets = front ++ [b, Bytes.lineFeed] ∧ b ≠ Bytes.lineFeed ∧
    b ≠ Bytes.carriageReturn

/-- The last piece of a line ends as the line does. -/
lemma exists_cutPieces_concat (width room : Nat) (piece line : List Char) (c : Char) :
    ∃ ps p, cutPieces width room piece (line ++ [c]) = ps ++ [p ++ [c]] := by
  induction line generalizing room piece with
  | nil =>
    rw [List.nil_append, cutPieces]
    split
    · exact ⟨[], piece.reverse, by simp [cutPieces]⟩
    · exact ⟨[piece.reverse], [], by simp [cutPieces]⟩
  | cons x line ih =>
    rw [List.cons_append, cutPieces]
    split
    · exact ih _ _
    · obtain ⟨ps, p, hpieces⟩ := ih (width - Utf8.width x) [x]
      exact ⟨piece.reverse :: ps, p, by rw [hpieces, List.cons_append]⟩

/-- An octet of a character that ends no line ends none either. -/
lemma ne_of_mem_encodeChar {c : Char} (hlf : c ≠ '\n') (hcr : c ≠ '\r') {b : UInt8}
    (hb : b ∈ Utf8.encodeChar c) : b ≠ Bytes.lineFeed ∧ b ≠ Bytes.carriageReturn := by
  refine ⟨?_, ?_⟩
  · rintro rfl
    exact hlf ((Utf8.mem_encodeChar_iff (by decide) c).1 hb)
  · rintro rfl
    exact hcr ((Utf8.mem_encodeChar_iff (by decide) c).1 hb)

/-- What is folded begins with the first character of the line. -/
lemma exists_fold_eq_cons {line : String} {c : Char} {cs : List Char}
    (hline : line.toList = c :: cs) (width : Nat) :
    ∃ rest, fold width line = Utf8.encodeChar c ++ rest := by
  obtain ⟨p, ps, hpieces⟩ := foldPieces_cons width c cs
  refine ⟨Utf8.encodeChars p ++ Bytes.lineFeed :: continuations ps, ?_⟩
  rw [fold, hline, hpieces]
  simp only [Utf8.encodeChars_cons, List.append_assoc]

/-- What is folded ends with the last character of the line and a line feed. -/
lemma exists_fold_eq_concat {line : String} {c : Char} {cs : List Char}
    (hline : line.toList = cs ++ [c]) (width : Nat) :
    ∃ front, fold width line = front ++ Utf8.encodeChar c ++ [Bytes.lineFeed] := by
  obtain ⟨ps, p, hpieces⟩ := exists_cutPieces_concat (width - 1) width [] cs c
  have hcut : foldPieces width line.toList = ps ++ [p ++ [c]] := by rw [hline, foldPieces, hpieces]
  have hlast : Utf8.encodeChars (p ++ [c]) = Utf8.encodeChars p ++ Utf8.encodeChar c := by
    simp [Utf8.encodeChars]
  rw [fold, hcut]
  cases ps with
  | nil => exact ⟨Utf8.encodeChars p, by simp [hlast, continuations]⟩
  | cons q ps =>
    refine ⟨Utf8.encodeChars q ++ Bytes.lineFeed :: (continuations ps ++
      Bytes.space :: Utf8.encodeChars p), ?_⟩
    simp [hlast, continuations]

/-- The line of a value ends, whatever the value is, with a character that ends no line. -/
lemma exists_valueLine_eq_concat (name : String) (value : Bytes) :
    ∃ cs c, (valueLine name value).toList = cs ++ [c] ∧ c ≠ '\n' ∧ c ≠ '\r' := by
  obtain ⟨behind, hline, hlf, hcr, -⟩ := gives_valueLine name value
  have hchars : (valueLine name value).toList = name.toList ++ ':' :: behind.toList := by
    simp [hline]
  rcases List.eq_nil_or_concat behind.toList with hnil | ⟨cs, c, hconcat⟩
  · exact ⟨name.toList, ':', by rw [hchars, hnil], by decide, by decide⟩
  · refine ⟨name.toList ++ ':' :: cs, c, by simp [hchars, hconcat], ?_, ?_⟩
    · rintro rfl
      exact hlf (by simp [hconcat])
    · rintro rfl
      exact hcr (by simp [hconcat])

/-- Every line of an entry is written for a name and a value. -/
lemma eq_valueLine_of_mem_entryBlock {e : Entry} {line : String} (h : line ∈ entryBlock e) :
    ∃ name value, line = valueLine name value := by
  rw [entryBlock, List.mem_cons, List.mem_append, List.mem_map] at h
  rcases h with h | h | ⟨p, -, h⟩
  · exact ⟨_, _, h⟩
  · split at h
    · exact ⟨_, _, List.mem_singleton.1 h⟩
    · exact absurd h List.not_mem_nil
  · exact ⟨_, _, h.symm⟩

/-- The record of an entry neither begins nor ends with a blank line. -/
theorem framed_renderEntry (e : Entry) : Framed (renderEntry e) := by
  rw [renderEntry_eq, unlines_foldedBlock]
  constructor
  · obtain ⟨behind, hline, -⟩ := gives_valueLine "dn" (Utf8.encode e.dn)
    have hchars : (valueLine "dn" (Utf8.encode e.dn)).toList =
        'd' :: 'n' :: ':' :: behind.toList := by
      rw [hline]
      simp
    obtain ⟨rest, hfold⟩ := exists_fold_eq_cons hchars wrapColumn
    rw [entryBlock, List.flatMap_cons, hfold]
    exact ⟨0x64, _, rfl, by decide, by decide⟩
  · obtain hnil | ⟨block, line, hblock⟩ := List.eq_nil_or_concat (entryBlock e)
    · exact absurd hnil (List.cons_ne_nil _ _)
    obtain ⟨name, value, rfl⟩ : ∃ name value, line = valueLine name value :=
      eq_valueLine_of_mem_entryBlock (e := e) (by simp [hblock])
    obtain ⟨cs, c, hchars, hlf, hcr⟩ := exists_valueLine_eq_concat name value
    obtain ⟨front, hfold⟩ := exists_fold_eq_concat hchars wrapColumn
    obtain hnone | ⟨octets, b, hoctets⟩ := List.eq_nil_or_concat (Utf8.encodeChar c)
    · exact absurd hnone (Utf8.encodeChar_ne_nil c)
    have hb : b ∈ Utf8.encodeChar c := by simp [hoctets]
    refine ⟨block.flatMap (fold wrapColumn) ++ front ++ octets, b, ?_,
      ne_of_mem_encodeChar hlf hcr hb⟩
    simp [hblock, hfold, hoctets]

/-- Entries behind others, each behind a line feed. -/
lemma renderFrom_succ (written : Nat) (entries : List Entry) :
    Format.ldif.renderFrom (written + 1) entries =
      entries.flatMap fun e => Bytes.lineFeed :: renderEntry e := by
  induction entries generalizing written with
  | nil => rfl
  | cons e entries ih =>
    rw [Format.renderFrom, ih, List.flatMap_cons, Format.renderNext, renderNext,
      if_neg (Nat.succ_ne_zero written)]

/-- One line feed stands between any two records, and none in front of the first or behind the
last. -/
theorem renderFrom_eq_intercalate (entries : List Entry) :
    Format.ldif.renderFrom 0 entries =
      [Bytes.lineFeed].intercalate (entries.map renderEntry) := by
  have hbehind : ∀ (e : Entry) (rest : List Entry),
      [Bytes.lineFeed].intercalate ((e :: rest).map renderEntry) =
        renderEntry e ++ rest.flatMap fun e => Bytes.lineFeed :: renderEntry e := by
    intro e rest
    induction rest generalizing e with
    | nil => simp [List.intercalate]
    | cons next rest ih =>
      rw [List.map_cons, List.map_cons, List.intercalate_cons_cons, ← List.map_cons, ih,
        List.flatMap_cons]
      simp
  cases entries with
  | nil => rfl
  | cons e rest =>
    rw [hbehind, Format.renderFrom, renderFrom_succ]
    rfl

end DirectoryExchange.Ldif

import DirectoryExchange.Proofs.Ldif.Written

/-!
# Folding

A line is folded greedily: each piece takes of what remains as many characters as its physical line
has room for, and one character at least (`foldPieces_eq_append_cons`).  A character has at most
four octets, so from a width of five on no physical line is too long.  Reading undoes the folding
(`fold_unfold`).
-/

namespace DirectoryExchange.Ldif

/-! ### Pieces -/

/-- Whether the piece is the longest beginning of the rest that stays within the width on a physical
line that begins with `indent`. -/
structure LongestWithin (width : Nat) (indent : Bytes) (rest piece : List Char) : Prop where
  /-- It is a beginning of the rest. -/
  isPrefix : piece <+: rest
  /-- It stays within the width. -/
  fits : (indent ++ Utf8.encodeChars piece).length ≤ width
  /-- No longer one does. -/
  longest : ∀ other, other <+: rest → (indent ++ Utf8.encodeChars other).length ≤ width →
    other <+: piece

/-- Whether folding takes the piece of what remains of a line: the longest beginning that stays
within the width, but one character if this would be nothing. -/
inductive NextPiece (width : Nat) (indent : Bytes) (rest : List Char) : List Char → Prop
  /-- There is nothing, or something that stays within the width. -/
  | longest {piece : List Char} (h : LongestWithin width indent rest piece)
      (hsome : piece = [] → rest = []) : NextPiece width indent rest piece
  /-- Not even the first character stays within the width. -/
  | single {c : Char} {more : List Char} (hrest : rest = c :: more)
      (hwide : width < (indent ++ Utf8.encodeChar c).length) : NextPiece width indent rest [c]

lemma width_pos (c : Char) : 0 < Utf8.width c := by
  rw [← Utf8.length_encodeChar]
  exact List.length_pos_iff.2 (Utf8.encodeChar_ne_nil c)

/-- No character takes more than four. -/
lemma width_le_four (c : Char) : Utf8.width c ≤ 4 := by
  unfold Utf8.width
  split
  · omega
  split
  · omega
  split
  · omega
  · omega

/-- A piece that has been begun: it stays within the width and `room` octets are left, or it is one
character that is too wide, and none are. -/
structure Begun (width : Nat) (indent : Bytes) (room : Nat) (piece : List Char) : Prop where
  /-- The octets that are left. -/
  room_eq : room = width - (indent ++ Utf8.encodeChars piece).length
  /-- The piece stays within the width, or is one character. -/
  fits_or_single : (indent ++ Utf8.encodeChars piece).length ≤ width ∨ ∃ c, piece = [c]

namespace Begun

variable {width room : Nat} {indent : Bytes} {piece rest : List Char} {c : Char}

/-- A character for which there is room goes on with the piece. -/
lemma concat (h : Begun width indent room piece) (hc : piece = [] ∨ Utf8.width c ≤ room) :
    Begun width indent (room - Utf8.width c) (piece ++ [c]) := by
  have hpos := width_pos c
  have hroom := h.room_eq
  have hlength : (indent ++ Utf8.encodeChars (piece ++ [c])).length =
      (indent ++ Utf8.encodeChars piece).length + Utf8.width c := by
    simp [Nat.add_assoc]
  refine ⟨by omega, ?_⟩
  rcases hc with rfl | hc
  · exact .inr ⟨c, rfl⟩
  · exact .inl (by omega)

/-- The whole rest is a piece if it has been taken. -/
lemma nextPiece_self (h : Begun width indent room piece) : NextPiece width indent piece piece := by
  by_cases hfits : (indent ++ Utf8.encodeChars piece).length ≤ width
  · exact .longest ⟨List.prefix_rfl, hfits, fun _ hother _ => hother⟩ id
  · obtain ⟨c, rfl⟩ := h.fits_or_single.resolve_left hfits
    refine .single rfl ?_
    simpa using hfits

/-- A piece ends in front of a character for which there is no room. -/
lemma nextPiece_append_cons (h : Begun width indent room piece) (hne : piece ≠ [])
    (hc : room < Utf8.width c) : NextPiece width indent (piece ++ c :: rest) piece := by
  have hroom := h.room_eq
  by_cases hfits : (indent ++ Utf8.encodeChars piece).length ≤ width
  · refine .longest ⟨List.prefix_append _ _, hfits, fun other hother hwithin => ?_⟩
      fun hnil => absurd hnil hne
    -- a longer beginning has the character as well
    rcases Nat.lt_or_ge piece.length other.length with hlt | hle
    · have hnext : piece ++ [c] <+: piece ++ c :: rest := ⟨rest, by simp⟩
      have hmore : piece ++ [c] <+: other :=
        List.prefix_of_prefix_length_le hnext hother (by simpa)
      obtain ⟨behind, rfl⟩ := hmore
      simp only [List.length_append, Utf8.encodeChars_append, Utf8.encodeChars_cons,
        Utf8.encodeChars_nil, List.append_nil, Utf8.length_encodeChar] at hwithin hfits hroom
      omega
    · exact List.prefix_of_prefix_length_le hother (List.prefix_append _ _) hle
  · obtain ⟨d, rfl⟩ := h.fits_or_single.resolve_left hfits
    refine .single rfl ?_
    simpa using hfits

end Begun

/-- What stands on a physical line in front of its piece, where these pieces come before. -/
def indentBehind (before : List (List Char)) : Bytes := if before = [] then [] else [Bytes.space]

/-- From a piece that has been begun on, every piece is taken from what remains. -/
lemma nextPiece_cutPieces {width room : Nat} {indent : Bytes} {begun line piece : List Char}
    {before after : List (List Char)} (hbegun : Begun width indent room begun.reverse)
    (h : cutPieces (width - 1) room begun line = before ++ piece :: after) :
    NextPiece width (if before = [] then indent else [Bytes.space]) (piece ++ after.flatten)
      piece := by
  -- `begun` is the piece at hand, and `room` is what is left of the width behind it
  induction line generalizing room indent begun before with
  | nil =>
    rw [cutPieces, List.singleton_eq_append_iff] at h
    obtain ⟨rfl, h⟩ | ⟨-, h⟩ := h
    · obtain ⟨rfl, rfl⟩ := List.cons.inj h
      simpa using hbegun.nextPiece_self
    · exact absurd h (List.cons_ne_nil _ _)
  | cons c rest ih =>
    rw [cutPieces] at h
    split at h
    · next hc =>
      refine ih ?_ h
      rw [List.reverse_cons]
      exact hbegun.concat (hc.imp_left List.reverse_eq_nil_iff.2)
    · next hc =>
      rw [not_or, Nat.not_le] at hc
      have hnext : Begun width [Bytes.space] (width - 1 - Utf8.width c) [c].reverse := by
        refine ⟨?_, .inr ⟨c, rfl⟩⟩
        simp only [List.reverse_singleton, Utf8.encodeChars_cons, Utf8.encodeChars_nil,
          List.append_nil, List.length_append, List.length_singleton, Utf8.length_encodeChar]
        omega
      cases before with
      | nil =>
        obtain ⟨rfl, rfl⟩ := List.cons.inj h
        rw [if_pos rfl, flatten_cutPieces]
        exact hbegun.nextPiece_append_cons (mt List.reverse_eq_nil_iff.1 hc.1) hc.2
      | cons first before =>
        obtain ⟨-, h⟩ := List.cons.inj h
        have hlater := ih hnext h
        rw [ite_self] at hlater
        rwa [if_neg (List.cons_ne_nil _ _)]

/-- Every piece of a line is taken from what remains of it. -/
theorem foldPieces_eq_append_cons {width : Nat} {line piece : List Char}
    {before after : List (List Char)} (h : foldPieces width line = before ++ piece :: after) :
    NextPiece width (indentBehind before) (piece ++ after.flatten) piece := by
  have hbegun : Begun width [] width [].reverse := ⟨by simp, .inl (by simp)⟩
  exact nextPiece_cutPieces hbegun h

/-- Where there is room for any character, the piece stays within the width. -/
lemma NextPiece.fits {width : Nat} {indent : Bytes} {rest piece : List Char}
    (h : NextPiece width indent rest piece) (hroom : indent.length + 4 ≤ width) :
    (indent ++ Utf8.encodeChars piece).length ≤ width := by
  cases h with
  | longest h _ => exact h.fits
  | @single c more _ hwide =>
    have hfour := width_le_four c
    rw [List.length_append, Utf8.length_encodeChar] at hwide
    omega

/-- A line is folded into one piece at least. -/
lemma exists_foldPieces_eq_cons (width : Nat) (line : List Char) :
    ∃ first later, foldPieces width line = first :: later := by
  cases line with
  | nil => exact ⟨[], [], rfl⟩
  | cons c line =>
    obtain ⟨p, ps, hpieces⟩ := foldPieces_cons width c line
    exact ⟨c :: p, ps, hpieces⟩

/-! ### Physical lines -/

/-- The first physical line is the first piece, and the others begin with a space. -/
lemma foldedLines_eq {width : Nat} {line : String} {first : List Char} {later : List (List Char)}
    (h : foldPieces width line.toList = first :: later) :
    foldedLines width line =
      Utf8.encodeChars first :: later.map fun piece => Bytes.space :: Utf8.encodeChars piece := by
  rw [foldedLines, h]

/-- A physical line is a piece behind its indent. -/
lemma exists_of_mem_foldedLines {width : Nat} {line : String} {l : Bytes}
    (h : l ∈ foldedLines width line) :
    ∃ before piece after, foldPieces width line.toList = before ++ piece :: after ∧
      l = indentBehind before ++ Utf8.encodeChars piece := by
  obtain ⟨first, later, hpieces⟩ := exists_foldPieces_eq_cons width line.toList
  rw [foldedLines_eq hpieces] at h
  rw [hpieces]
  rcases List.mem_cons.1 h with rfl | h
  · exact ⟨[], first, later, rfl, rfl⟩
  · obtain ⟨piece, hpiece, rfl⟩ := List.mem_map.1 h
    obtain ⟨before, after, rfl⟩ := List.append_of_mem hpiece
    exact ⟨first :: before, piece, after, rfl, rfl⟩

/-- From a width of five on, no physical line is too long. -/
theorem length_le_of_mem_foldedLines {width : Nat} (hwidth : 5 ≤ width) {line : String} {l : Bytes}
    (h : l ∈ foldedLines width line) : l.length ≤ width := by
  obtain ⟨before, piece, after, hpieces, rfl⟩ := exists_of_mem_foldedLines h
  refine (foldPieces_eq_append_cons hpieces).fits ?_
  rw [indentBehind]
  split
  · exact Nat.le_of_succ_le hwidth
  · exact hwidth

/-! ### Unfolding -/

/-- What is folded is read as one record of one logical line. -/
theorem held_rawRecords_fold {line : String} (h : Readable line) (width : Nat)
    (portion : Option Nat) :
    (rawRecords { bytes := fold width line, portion }).map RawRecord.held =
      [([⟨1, Utf8.encode line⟩], none)] := by
  obtain ⟨cut, hlines, htext⟩ := exists_cutLine h width
  let d : Document := ⟨[], [⟨[⟨[], cut⟩], List.cons_ne_nil _ _, []⟩], nofun, []⟩
  have hbytes : d.bytes (fun _ => .lineFeed) true = fold width line := by
    have hd : d.lines = foldedLines width line := by
      rw [← hlines]
      simp [d, Document.lines, LaidRecord.lines, CommentedLine.lines, Gap.lines, commentLines]
    rw [Document.bytes, if_pos rfl, endLines_lineFeed, hd, fold_eq_unlines]
  rw [← hbytes, held_rawRecords, ← htext]
  rfl

/-- A line is folded into pieces that make up the line, the first on a physical line of its own and
each later one behind a space.  Every piece is the longest beginning of what remains that keeps its
physical line within the width, or one character if not even that does; so from a width of five on
no physical line is longer than the width.  A line that can be read back is read as that one logical
line. -/
theorem fold_unfold (width : Nat) (line : String) :
    ∃ first later,
      let lines := Utf8.encodeChars first ::
        later.map fun piece => Bytes.space :: Utf8.encodeChars piece
      fold width line = unlines lines ∧
      (first :: later).flatten = line.toList ∧
      (∀ before piece after, first :: later = before ++ piece :: after →
        NextPiece width (indentBehind before) (piece ++ after.flatten) piece) ∧
      (5 ≤ width → ∀ l ∈ lines, l.length ≤ width) ∧
      (Readable line → ∀ portion : Option Nat,
        (rawRecords { bytes := fold width line, portion }).map RawRecord.held =
          [([⟨1, Utf8.encode line⟩], none)]) := by
  obtain ⟨first, later, hpieces⟩ := exists_foldPieces_eq_cons width line.toList
  refine ⟨first, later, ?_⟩
  intro lines
  have hlines : foldedLines width line = lines := foldedLines_eq hpieces
  refine ⟨?_, ?_, ?_, ?_, ?_⟩
  · rw [fold_eq_unlines, hlines]
  · rw [← hpieces, flatten_foldPieces]
  · intro before piece after h
    exact foldPieces_eq_append_cons (hpieces.trans h)
  · intro hfive l hl
    rw [← hlines] at hl
    exact length_le_of_mem_foldedLines hfive hl
  · exact fun hline => held_rawRecords_fold hline width

/-- The character of four octets has no room behind two others, nor has one of two octets behind
it. -/
theorem fold_unfold_fourOctets :
    ∃ lines, fold 5 "ab😀é" = unlines lines ∧ (∀ l ∈ lines, l.length ≤ 5) ∧
      (rawRecords { bytes := fold 5 "ab😀é" }).map RawRecord.held =
        [([⟨1, Utf8.encode "ab😀é"⟩], none)] := by
  have hreadable : Readable "ab😀é" :=
    ⟨⟨'a', ['b', '😀', 'é'], by decide, by decide, by decide⟩, by decide, by decide⟩
  obtain ⟨first, later, hfold, -, -, hlength, hread⟩ := fold_unfold 5 "ab😀é"
  exact ⟨_, hfold, hlength (by decide), hread hreadable none⟩

end DirectoryExchange.Ldif

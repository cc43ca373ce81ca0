import DirectoryExchange.Proofs.Filter.Grammar

/-!
# Parsing filters

The parser reads a filter exactly where one is written (`parse_eq_ok_iff`), so it reads every way to
write a filter (`parse_of_renders`), and refuses a text as unsupported exactly where it meets
another kind of match (`parse_eq_unsupported_iff`).  Each stage is as good as the next one:
conditions on an attribute (`parseItem_eq_ok_iff`), filters one behind the other
(`parseSome_eq_ok_iff`), what stands between brackets (`parseContent_eq_ok_iff`), and nested filters
(`faithful_parseNested`).
-/

namespace DirectoryExchange.Filter

/-! ### Conditions on an attribute -/

/-- A name ends in front of a mark. -/
lemma endsName_iff {c : Char} : endsName c = true ↔ c ∈ nameMarks := by
  simp [endsName, nameMarks, or_assoc]

/-- A value ends in front of a bracket. -/
lemma endsValue_iff {c : Char} : endsValue c = true ↔ c ∈ ['(', ')'] := by
  simp [endsValue]

/-- Whether the characters, if there are any, begin with a bracket. -/
def AtBracket (cs : List Char) : Prop := ∀ c, cs.head? = some c → c ∈ ['(', ')']

section

variable {p : Char → Bool} {front rest : List Char}

/-- The characters up to the first of which `p` holds. -/
lemma exists_stop (p : Char → Bool) (cs : List Char) :
    ∃ front rest, cs = front ++ rest ∧ (∀ c ∈ front, p c = false) ∧
      ∀ c, rest.head? = some c → p c = true := by
  refine ⟨cs.takeWhile fun c => !p c, cs.dropWhile fun c => !p c,
    List.takeWhile_append_dropWhile.symm, fun c hc => ?_, fun c hc => ?_⟩
  · simpa using List.mem_takeWhile_imp hc
  · simpa using Blank.head?_dropWhile hc

variable (hfront : ∀ c ∈ front, p c = false) (hrest : ∀ c, rest.head? = some c → p c = true)
include hfront hrest

/-- What is taken up to a stop is what stands in front of it. -/
lemma takeWhile_stop : (front ++ rest).takeWhile (fun c => !p c) = front := by
  rw [List.takeWhile_append_of_pos (by simpa using hfront)]
  cases rest with
  | nil => simp
  | cons c rest => simp [hrest c rfl]

lemma dropWhile_stop : (front ++ rest).dropWhile (fun c => !p c) = rest := by
  rw [List.dropWhile_append_of_pos (by simpa using hfront)]
  exact Blank.dropWhile_eq_self fun c hc => by rw [hrest c hc]; rfl

end

section

variable {name : String} {label raw behind rest : List Char} {mark : Char}

/-- What is read behind a label depends on what ends it. -/
lemma parseItem_label (hlabel : ∀ c ∈ label, c ∉ nameMarks) (hmark : mark ∈ nameMarks) :
    parseItem (label ++ mark :: rest) =
      if mark = ':' then .error .unsupported
      else if Blank.trim (String.ofList label) = "" then .error .malformed
      else if mark = '=' then do
        let filter ← ofValue (Blank.trim (String.ofList label))
          (rest.takeWhile fun c => !endsValue c)
        return (filter, rest.dropWhile fun c => !endsValue c)
      else if mark = '~' ∨ mark = '<' ∨ mark = '>' then
        .error (if rest.head? = some '=' then .unsupported else .malformed)
      else .error .malformed := by
  have hfront : ∀ c ∈ label, endsName c = false := fun c hc =>
    Bool.eq_false_iff.2 (mt endsName_iff.1 (hlabel c hc))
  have hstop : ∀ c, (mark :: rest).head? = some c → endsName c = true := by
    rintro c hc
    obtain rfl := Option.some.inj hc
    exact endsName_iff.2 hmark
  rw [parseItem, takeWhile_stop hfront hstop, dropWhile_stop hfront hstop]

lemma parseItem_colon (hlabel : Label label) :
    parseItem (label ++ ':' :: rest) = .error .unsupported := by
  rw [parseItem_label hlabel.chars (by decide), if_pos rfl]

/-- A mark of order is another kind of match if an equals sign follows, and else a fault. -/
lemma parseItem_ordered (hname : RendersName name label) (hmark : mark ∈ ['~', '<', '>']) :
    parseItem (label ++ mark :: rest) =
      .error (if rest.head? = some '=' then .unsupported else .malformed) := by
  obtain ⟨hlabel, rfl, hne⟩ := rendersName_iff.1 hname
  simp only [List.mem_cons, List.not_mem_nil, or_false] at hmark
  have hmarks : mark ∈ nameMarks ∧ mark ≠ ':' ∧ mark ≠ '=' := by
    rcases hmark with rfl | rfl | rfl <;> decide
  rw [parseItem_label hlabel.chars hmarks.1, if_neg hmarks.2.1, if_neg hne, if_neg hmarks.2.2,
    if_pos hmark]

/-- Behind an equals sign a value is read up to the next bracket. -/
lemma parseItem_equals (hname : RendersName name label) (hraw : ∀ c ∈ raw, c ∉ ['(', ')'])
    (hbehind : AtBracket behind) :
    parseItem (label ++ '=' :: (raw ++ behind)) = do
      let filter ← ofValue name raw
      return (filter, behind) := by
  obtain ⟨hlabel, rfl, hne⟩ := rendersName_iff.1 hname
  have hfront : ∀ c ∈ raw, endsValue c = false := fun c hc =>
    Bool.eq_false_iff.2 (mt endsValue_iff.1 (hraw c hc))
  have hstop : ∀ c, behind.head? = some c → endsValue c = true := fun c hc =>
    endsValue_iff.2 (hbehind c hc)
  rw [parseItem_label hlabel.chars (by decide), if_neg (by decide), if_neg hne, if_pos rfl,
    takeWhile_stop hfront hstop, dropWhile_stop hfront hstop]

/-- What the characters behind an opening bracket are that begin with no sign, so far as they are
not malformed. -/
lemma parseItem_cases {cs : List Char} (hcs : ∀ c, cs.head? = some c → c ∉ signs) :
    parseItem cs = .error .malformed ∨
      (∃ label rest, Label label ∧ cs = label ++ ':' :: rest) ∨
      (∃ name label mark rest, RendersName name label ∧ mark ∈ ['~', '<', '>'] ∧
        cs = label ++ mark :: rest) ∨
      ∃ name label raw behind, RendersName name label ∧ (∀ c ∈ raw, c ∉ ['(', ')']) ∧
        AtBracket behind ∧ cs = label ++ '=' :: (raw ++ behind) := by
  obtain ⟨label, stop, rfl, hlabel, hstop⟩ := exists_stop endsName cs
  have hchars : ∀ c ∈ label, c ∉ nameMarks := fun c hc =>
    mt endsName_iff.2 (by simp [hlabel c hc])
  cases stop with
  | nil =>
    left
    rw [parseItem, dropWhile_stop hlabel hstop]
  | cons mark rest =>
    have hmark : mark ∈ nameMarks := endsName_iff.1 (hstop mark rfl)
    have hlabel : Label label := by
      refine ⟨hchars, fun c hc => hcs c ?_⟩
      rw [List.head?_append, hc, Option.some_or]
    by_cases hempty : Blank.trim (String.ofList label) = ""
    · by_cases hcolon : mark = ':'
      · subst hcolon
        exact .inr (.inl ⟨label, rest, hlabel, rfl⟩)
      · left
        rw [parseItem_label hchars hmark, if_neg hcolon, if_pos hempty]
    · have hname : RendersName _ label := rendersName_iff.2 ⟨hlabel, rfl, hempty⟩
      -- behind a name the mark decides
      simp only [nameMarks, List.mem_cons, List.not_mem_nil, or_false] at hmark
      have hbracket : mark = '(' ∨ mark = ')' → parseItem (label ++ mark :: rest) =
          .error .malformed := by
        rintro (rfl | rfl) <;>
          rw [parseItem_label hchars (by decide), if_neg (by decide), if_neg hempty,
            if_neg (by decide), if_neg (by decide)]
      rcases hmark with rfl | rfl | rfl | rfl | rfl | rfl | rfl
      · obtain ⟨raw, behind, rfl, hraw, hbehind⟩ := exists_stop endsValue rest
        exact .inr (.inr (.inr ⟨_, label, raw, behind, hname,
          fun c hc => mt endsValue_iff.2 (by simp [hraw c hc]),
          fun c hc => endsValue_iff.1 (hbehind c hc), rfl⟩))
      · exact .inr (.inr (.inl ⟨_, label, '~', rest, hname, by decide, rfl⟩))
      · exact .inr (.inr (.inl ⟨_, label, '<', rest, hname, by decide, rfl⟩))
      · exact .inr (.inr (.inl ⟨_, label, '>', rest, hname, by decide, rfl⟩))
      · exact .inr (.inl ⟨label, rest, hlabel, rfl⟩)
      · exact .inl (hbracket (.inl rfl))
      · exact .inl (hbracket (.inr rfl))

end

/-- A value alone stands for presence if it is a star, and else for the octets that it spells. -/
lemma ofValue_eq_ok_iff {name : String} {raw : List Char} {filter : Filter}
    (hraw : ∀ c ∈ raw, c ∉ ['(', ')']) :
    ofValue name raw = .ok filter ↔ raw = ['*'] ∧ filter = .present name ∨
      ∃ value, filter = .equal name value ∧ Spells Accepted value (Utf8.encodeChars raw) := by
  have hstars : (∀ c ∈ raw, c ∉ ['(', ')', '*']) ↔ '*' ∉ raw := by
    refine ⟨fun h hstar => h _ hstar (by decide), fun hstar c hc hmark => ?_⟩
    rcases List.mem_append.1 (show c ∈ ['(', ')'] ++ ['*'] from hmark) with h | h
    · exact hraw c hc h
    · exact hstar (List.mem_singleton.1 h ▸ hc)
  simp only [spells_iff, hstars]
  rw [ofValue]
  split
  · next hstar => simp [hstar, eq_comm]
  split
  · next hne hstar => simp [hne, hstar]
  · next hne hstar => cases hvalue : unescape? raw <;> simp [hne, hstar, eq_comm]

/-- A star beside other characters is a match by parts. -/
lemma ofValue_eq_unsupported_iff {name : String} {raw : List Char} :
    ofValue name raw = .error .unsupported ↔ '*' ∈ raw ∧ raw ≠ ['*'] := by
  rw [ofValue]
  split
  · next hstar => simp [hstar]
  split
  · next hne hstar => simp [hne, hstar]
  · next hne hstar => split <;> simp [hstar]

/-- A condition on an attribute is read exactly where one is written, up to a bracket. -/
theorem parseItem_eq_ok_iff {cs rest : List Char} {filter : Filter}
    (hcs : ∀ c, cs.head? = some c → c ∉ signs) :
    parseItem cs = .ok (filter, rest) ↔
      AtBracket rest ∧ ∃ text, cs = text ++ rest ∧ RendersItem Accepted filter text := by
  constructor
  · intro h
    rcases parseItem_cases hcs with hbad | ⟨label, _, hlabel, rfl⟩ |
      ⟨name, label, mark, _, hname, hmark, rfl⟩ |
      ⟨name, label, raw, behind, hname, hraw, hbehind, rfl⟩
    · rw [hbad] at h
      exact absurd h nofun
    · rw [parseItem_colon hlabel] at h
      exact absurd h nofun
    · rw [parseItem_ordered hname hmark] at h
      exact absurd h nofun
    · rw [parseItem_equals hname hraw hbehind, bind_eq_ok_iff] at h
      obtain ⟨filter', hvalue, heq⟩ := h
      obtain ⟨rfl, rfl⟩ := Prod.mk.inj (Except.ok.inj heq)
      rcases (ofValue_eq_ok_iff hraw).1 hvalue with ⟨rfl, rfl⟩ | ⟨value, rfl, hspells⟩
      · exact ⟨hbehind, label ++ ['=', '*'], by simp, .present hname⟩
      · exact ⟨hbehind, label ++ '=' :: raw, by simp, .equal hname hspells⟩
  · rintro ⟨hrest, text, rfl, hitem⟩
    cases hitem with
    | @present name label hname =>
      have hraw : ∀ c ∈ ['*'], c ∉ ['(', ')'] := List.all_iff_forall_prop.1 (by decide)
      have hparse := parseItem_equals hname hraw hrest
      rw [(ofValue_eq_ok_iff hraw).2 (.inl ⟨rfl, rfl⟩), ok_bind] at hparse
      rw [List.append_assoc]
      exact hparse
    | @equal name label raw value hname hspells =>
      have hraw : ∀ c ∈ raw, c ∉ ['(', ')'] := fun c hc hmark =>
        (spells_iff.1 hspells).2 c hc (List.mem_append_left ['*'] hmark)
      have hparse := parseItem_equals hname hraw hrest
      rw [(ofValue_eq_ok_iff hraw).2 (.inr ⟨value, rfl, hspells⟩), ok_bind] at hparse
      rw [List.append_assoc]
      exact hparse

/-- Another kind of match is met exactly where one begins. -/
theorem parseItem_eq_unsupported_iff {cs : List Char} (hcs : ∀ c, cs.head? = some c → c ∉ signs) :
    parseItem cs = .error .unsupported ↔ OtherMatch cs := by
  constructor
  · intro h
    rcases parseItem_cases hcs with hbad | ⟨label, _, hlabel, rfl⟩ |
      ⟨name, label, mark, rest, hname, hmark, rfl⟩ |
      ⟨name, label, raw, behind, hname, hraw, hbehind, rfl⟩
    · rw [hbad] at h
      exact absurd h nofun
    · exact .extensible hlabel
    · rw [parseItem_ordered hname hmark] at h
      cases rest with
      | nil => exact absurd h nofun
      | cons c rest =>
        by_cases hc : c = '='
        · subst hc
          exact .ordered hname hmark
        · rw [List.head?_cons, if_neg (by simpa using hc)] at h
          exact absurd h nofun
    · rw [parseItem_equals hname hraw hbehind, bind_eq_error_iff, ofValue_eq_unsupported_iff] at h
      obtain ⟨hstar, hnot⟩ : '*' ∈ raw ∧ raw ≠ ['*'] :=
        h.resolve_right fun ⟨_, _, hpure⟩ => absurd hpure nofun
      exact .substring hname hraw hstar hnot
  · intro h
    cases h with
    | extensible hlabel => exact parseItem_colon hlabel
    | ordered hname hmark =>
      rw [parseItem_ordered hname hmark]
      rfl
    | @substring name label raw rest hname hraw hstar hnot =>
      -- the reader takes the value up to the next bracket, which may be behind `raw`
      obtain ⟨more, behind, rfl, hmore, hbehind⟩ := exists_stop endsValue rest
      have hall : ∀ c ∈ raw ++ more, c ∉ ['(', ')'] :=
        List.forall_mem_append.2 ⟨hraw, fun c hc => mt endsValue_iff.2 (by simp [hmore c hc])⟩
      have hlong : raw ++ more ≠ ['*'] := by
        intro heq
        rcases List.append_eq_singleton_iff.1 heq with ⟨rfl, -⟩ | ⟨rfl, -⟩
        · exact List.not_mem_nil hstar
        · exact hnot rfl
      rw [← List.append_assoc,
        parseItem_equals hname hall fun c hc => endsValue_iff.1 (hbehind c hc),
        ofValue_eq_unsupported_iff.2 ⟨List.mem_append_left _ hstar, hlong⟩]
      rfl

/-! ### Filters one behind the other -/

/-- Whether `parse` reads the filter that the characters begin with, if there is one, and says of
the others whether they make use of another kind of match. -/
structure Faithful (parse : List Char → Except FilterError (Filter × List Char))
    (cs : List Char) : Prop where
  ok_iff : ∀ {filter rest}, parse cs = .ok (filter, rest) ↔
    ∃ text, cs = text ++ rest ∧ Renders Accepted filter text
  unsupported_iff : parse cs = .error .unsupported ↔ Breaks cs

section

variable {parse : List Char → Except FilterError (Filter × List Char)} {limit : Nat}
  {cs rest : List Char}

/-- Where no bracket opens there are no more filters. -/
lemma parseMany_of_not_open (h : cs.head? ≠ some '(') :
    parseMany parse limit cs = .ok ([], cs) := by
  cases limit with
  | zero => rfl
  | succ limit => rw [parseMany, if_neg h]

/-- A filter takes something of the text, so that less is left for the next one. -/
lemma length_le_of_renders {filter : Filter} {text : List Char} (h : Renders Accepted filter text)
    (hlimit : (text ++ rest).length ≤ limit + 1) : rest.length ≤ limit := by
  obtain ⟨inner, rfl⟩ := h.exists_bracketed
  rw [List.length_append, bracketed, List.length_cons] at hlimit
  omega

/-- A filter opens with a bracket, whatever stands behind it. -/
lemma head?_of_renders {filter : Filter} {text : List Char} (h : Renders Accepted filter text) :
    (text ++ rest).head? = some '(' := by
  obtain ⟨inner, rfl⟩ := h.exists_bracketed
  rfl

/-- Filters that are read one after the other are rendered one behind the other. -/
lemma exists_parts_of_parseMany {filters : List Filter}
    (hparse : ∀ cs, cs.length ≤ limit → Faithful parse cs) (hlimit : cs.length ≤ limit)
    (h : parseMany parse limit cs = .ok (filters, rest)) : rest.head? ≠ some '(' ∧
      ∃ parts : List (Filter × List Char), cs = parts.flatMap (·.2) ++ rest ∧
        filters = parts.map (·.1) ∧ ∀ part ∈ parts, Renders Accepted part.1 part.2 := by
  induction limit generalizing cs filters with
  | zero =>
    obtain rfl := List.length_eq_zero_iff.1 (Nat.le_zero.1 hlimit)
    obtain ⟨rfl, rfl⟩ := Prod.mk.inj (Except.ok.inj h)
    exact ⟨nofun, [], rfl, rfl, nofun⟩
  | succ limit ih =>
    rw [parseMany] at h
    split at h
    · obtain ⟨⟨filter, behind⟩, hfirst, h⟩ := bind_eq_ok_iff.1 h
      obtain ⟨⟨others, rest'⟩, hothers, heq⟩ := bind_eq_ok_iff.1 h
      obtain ⟨rfl, rfl⟩ := Prod.mk.inj (Except.ok.inj heq)
      obtain ⟨text, rfl, hrenders⟩ := (hparse cs hlimit).ok_iff.1 hfirst
      obtain ⟨hrest, parts, rfl, rfl, hparts⟩ := ih (fun cs h => hparse cs (Nat.le_succ_of_le h))
        (length_le_of_renders hrenders hlimit) hothers
      exact ⟨hrest, (filter, text) :: parts, by simp, rfl,
        List.forall_mem_cons.2 ⟨hrenders, hparts⟩⟩
    · next hclosed =>
      obtain ⟨rfl, rfl⟩ := Prod.mk.inj (Except.ok.inj h)
      exact ⟨hclosed, [], rfl, rfl, nofun⟩

/-- If another match is met, it is behind filters that are rendered. -/
lemma exists_breaks_of_parseMany
    (hparse : ∀ cs, cs.length ≤ limit → Faithful parse cs) (hlimit : cs.length ≤ limit)
    (h : parseMany parse limit cs = .error .unsupported) :
    ∃ (parts : List (Filter × List Char)) (text : List Char), cs = parts.flatMap (·.2) ++ text ∧
      (∀ part ∈ parts, Renders Accepted part.1 part.2) ∧ Breaks text := by
  induction limit generalizing cs with
  | zero => exact absurd h nofun
  | succ limit ih =>
    rw [parseMany] at h
    split at h
    · rcases bind_eq_error_iff.1 h with hfirst | ⟨⟨filter, behind⟩, hfirst, h⟩
      · exact ⟨[], cs, rfl, nofun, (hparse cs hlimit).unsupported_iff.1 hfirst⟩
      · have hothers : parseMany parse limit behind = .error .unsupported :=
          (bind_eq_error_iff.1 h).resolve_right fun ⟨_, _, hpure⟩ => absurd hpure nofun
        obtain ⟨text, rfl, hrenders⟩ := (hparse cs hlimit).ok_iff.1 hfirst
        obtain ⟨parts, broken, rfl, hparts, hbroken⟩ := ih
          (fun cs h => hparse cs (Nat.le_succ_of_le h)) (length_le_of_renders hrenders hlimit)
          hothers
        exact ⟨(filter, text) :: parts, broken, by simp, List.forall_mem_cons.2 ⟨hrenders, hparts⟩,
          hbroken⟩
    · exact absurd h nofun

/-- The filters that are written are read, and then what is behind them. -/
lemma parseMany_append {parts : List (Filter × List Char)}
    (hparse : ∀ cs, cs.length ≤ limit → Faithful parse cs)
    (hparts : ∀ part ∈ parts, Renders Accepted part.1 part.2)
    (hlimit : (parts.flatMap (·.2) ++ rest).length ≤ limit) :
    ∃ left, rest.length ≤ left ∧ left ≤ limit ∧
      parseMany parse limit (parts.flatMap (·.2) ++ rest) = do
        let (filters, behind) ← parseMany parse left rest
        return (parts.map (·.1) ++ filters, behind) := by
  induction parts generalizing limit with
  | nil =>
    refine ⟨limit, hlimit, le_rfl, ?_⟩
    cases hrest : parseMany parse limit rest <;> simp [hrest]
  | cons part parts ih =>
    obtain ⟨hpart, hparts⟩ := List.forall_mem_cons.1 hparts
    rw [List.flatMap_cons, List.append_assoc] at hlimit ⊢
    have hopen : (part.2 ++ (parts.flatMap (·.2) ++ rest)).head? = some '(' :=
      head?_of_renders hpart
    cases limit with
    | zero =>
      rw [List.length_eq_zero_iff.1 (Nat.le_zero.1 hlimit)] at hopen
      cases hopen
    | succ limit =>
      obtain ⟨left, hleft, hle, hbehind⟩ := ih (fun cs h => hparse cs (Nat.le_succ_of_le h)) hparts
        (length_le_of_renders hpart hlimit)
      refine ⟨left, hleft, Nat.le_succ_of_le hle, ?_⟩
      rw [parseMany, if_pos hopen, (hparse _ hlimit).ok_iff.2 ⟨part.2, rfl, hpart⟩, ok_bind]
      simp only [hbehind, bind_assoc]
      rfl

/-- Another match among filters is passed on. -/
lemma parseMany_of_breaks (hparse : Faithful parse cs) (hlimit : cs.length ≤ limit)
    (h : Breaks cs) : parseMany parse limit cs = .error .unsupported := by
  have hopen := h.head?
  cases limit with
  | zero =>
    rw [List.length_eq_zero_iff.1 (Nat.le_zero.1 hlimit)] at hopen
    cases hopen
  | succ limit =>
    rw [parseMany, if_pos hopen, hparse.unsupported_iff.2 h]
    rfl

variable (hparse : ∀ cs', cs'.length ≤ cs.length → Faithful parse cs')
include hparse

/-- At least one filter is read, and all that are rendered up to where no bracket opens. -/
lemma parseSome_eq_ok_iff {filters : List Filter} :
    parseSome parse cs = .ok (filters, rest) ↔ filters ≠ [] ∧ rest.head? ≠ some '(' ∧
      ∃ parts : List (Filter × List Char), cs = parts.flatMap (·.2) ++ rest ∧
        filters = parts.map (·.1) ∧ ∀ part ∈ parts, Renders Accepted part.1 part.2 := by
  rw [parseSome, bind_eq_ok_iff]
  constructor
  · rintro ⟨⟨filters', rest'⟩, hmany, h⟩
    cases filters' with
    | nil => exact absurd h nofun
    | cons filter filters' =>
      obtain ⟨rfl, rfl⟩ := Prod.mk.inj (Except.ok.inj h)
      exact ⟨List.cons_ne_nil _ _, exists_parts_of_parseMany hparse le_rfl hmany⟩
  · rintro ⟨hne, hrest, parts, rfl, rfl, hparts⟩
    obtain ⟨left, -, -, hmany⟩ := parseMany_append hparse hparts le_rfl
    simp only [parseMany_of_not_open hrest, ok_bind, List.append_nil] at hmany
    refine ⟨_, hmany, ?_⟩
    exact if_neg (by simpa using hne)

/-- Another match is met behind some filters that are rendered. -/
lemma parseSome_eq_unsupported_iff :
    parseSome parse cs = .error .unsupported ↔
      ∃ (parts : List (Filter × List Char)) (text : List Char), cs = parts.flatMap (·.2) ++ text ∧
        (∀ part ∈ parts, Renders Accepted part.1 part.2) ∧ Breaks text := by
  rw [parseSome, bind_eq_error_iff]
  constructor
  · rintro (hmany | ⟨⟨filters, behind⟩, -, h⟩)
    · exact exists_breaks_of_parseMany hparse le_rfl hmany
    · cases filters <;> exact absurd h nofun
  · rintro ⟨parts, text, rfl, hparts, hbreaks⟩
    obtain ⟨left, hleft, -, hmany⟩ := parseMany_append hparse hparts le_rfl
    have htext := hparse text (by rw [List.length_append]; omega)
    rw [hmany, parseMany_of_breaks htext hleft hbreaks]
    exact .inl rfl

end

/-! ### Filters in brackets -/

/-- Behind an opening bracket stands the sign of an operator or a condition on an attribute. -/
lemma content_cases (inner : List Char) :
    (∃ rest, inner = '!' :: rest) ∨
      (∃ combine sign rest, Combines combine sign ∧ inner = sign :: rest) ∨
      ∀ c, inner.head? = some c → c ∉ signs := by
  cases inner with
  | nil => exact .inr (.inr nofun)
  | cons c rest =>
    by_cases hc : c ∈ signs
    · simp only [signs, List.mem_cons, List.not_mem_nil, or_false] at hc
      rcases hc with rfl | rfl | rfl
      · exact .inr (.inl ⟨_, _, rest, .and, rfl⟩)
      · exact .inr (.inl ⟨_, _, rest, .or, rfl⟩)
      · exact .inl ⟨rest, rfl⟩
    · refine .inr (.inr fun d hd => ?_)
      rwa [← Option.some.inj hd]

section

variable {parse : List Char → Except FilterError (Filter × List Char)} {inner rest : List Char}

/-- A sign that combines filters takes all that follow it. -/
lemma parseContent_combines {combine : List Filter → Filter} {sign : Char}
    (h : Combines combine sign) : parseContent parse (sign :: rest) = do
      let (filters, rest) ← parseSome parse rest
      return (combine filters, rest) := by
  cases h <;> rfl

/-- A negation takes one filter. -/
lemma parseContent_not : parseContent parse ('!' :: rest) = do
    let (filter, rest) ← parse rest
    return (.not filter, rest) := rfl

/-- What does not begin with a sign is a condition on an attribute. -/
lemma parseContent_item (h : ∀ c, inner.head? = some c → c ∉ signs) :
    parseContent parse inner = parseItem inner := by
  cases inner with
  | nil => rfl
  | cons c rest =>
    have hc := h c rfl
    simp only [signs, List.mem_cons, List.not_mem_nil, or_false, not_or] at hc
    rw [parseContent, if_neg hc.1, if_neg hc.2.1, if_neg hc.2.2]

/-- A name does not begin with a sign. -/
lemma Label.head_append {label : List Char} (h : Label label) {mark : Char} (hmark : mark ∉ signs) :
    ∀ c, (label ++ mark :: rest).head? = some c → c ∉ signs := by
  intro c hc
  cases label with
  | nil =>
    obtain rfl := Option.some.inj hc
    exact hmark
  | cons d label => exact h.head c hc

lemma RendersItem.head_append {filter : Filter} {text : List Char}
    (h : RendersItem Accepted filter text) :
    ∀ c, (text ++ rest).head? = some c → c ∉ signs := by
  cases h with
  | present hname =>
    rw [List.append_assoc]
    exact (rendersName_iff.1 hname).1.head_append (by decide)
  | equal hname _ =>
    rw [List.append_assoc]
    exact (rendersName_iff.1 hname).1.head_append (by decide)

/-- Another match does not begin with a sign. -/
lemma OtherMatch.head {text : List Char} (h : OtherMatch text) :
    ∀ c, text.head? = some c → c ∉ signs := by
  cases h with
  | extensible hlabel => exact hlabel.head_append (by decide)
  | ordered hname hmark =>
    have hsigns : ∀ mark ∈ ['~', '<', '>'], mark ∉ signs :=
      List.all_iff_forall_prop.1 (by decide)
    exact (rendersName_iff.1 hname).1.head_append (hsigns _ hmark)
  | substring hname _ _ _ => exact (rendersName_iff.1 hname).1.head_append (by decide)

variable (hparse : ∀ cs, cs.length < inner.length → Faithful parse cs)
include hparse

/-- What is read between brackets is a filter that is rendered with them. -/
lemma parseContent_eq_ok_iff {filter : Filter} :
    parseContent parse inner = .ok (filter, ')' :: rest) ↔
      ∃ text, '(' :: inner = text ++ rest ∧ Renders Accepted filter text := by
  constructor
  · intro h
    rcases content_cases inner with ⟨behind, rfl⟩ | ⟨combine, sign, behind, hsign, rfl⟩ | hitem
    · rw [parseContent_not, bind_eq_ok_iff] at h
      obtain ⟨⟨negated, rest'⟩, hnegated, heq⟩ := h
      obtain ⟨rfl, rfl⟩ := Prod.mk.inj (Except.ok.inj heq)
      obtain ⟨text, rfl, hrenders⟩ := (hparse behind (Nat.lt_succ_self _)).ok_iff.1 hnegated
      exact ⟨bracketed ('!' :: text), by simp [bracketed], .not hrenders⟩
    · rw [parseContent_combines hsign, bind_eq_ok_iff] at h
      obtain ⟨⟨filters, rest'⟩, hfilters, heq⟩ := h
      obtain ⟨rfl, rfl⟩ := Prod.mk.inj (Except.ok.inj heq)
      obtain ⟨hne, -, parts, rfl, rfl, hparts⟩ :=
        (parseSome_eq_ok_iff fun cs hcs => hparse cs (Nat.lt_succ_of_le hcs)).1 hfilters
      exact ⟨bracketed (sign :: parts.flatMap (·.2)), by simp [bracketed],
        .listed hsign (mt List.map_eq_nil_iff.2 hne) hparts⟩
    · rw [parseContent_item hitem, parseItem_eq_ok_iff hitem] at h
      obtain ⟨-, text, rfl, hrenders⟩ := h
      exact ⟨bracketed text, by simp [bracketed], .item hrenders⟩
  · rintro ⟨text, htext, hrenders⟩
    cases hrenders with
    | @listed combine sign parts hsign hne hparts =>
      obtain rfl : inner = sign :: (parts.flatMap (·.2) ++ ')' :: rest) := by
        simpa [bracketed] using htext
      rw [parseContent_combines hsign,
        (parseSome_eq_ok_iff fun cs hcs => hparse cs (Nat.lt_succ_of_le hcs)).2
          ⟨mt List.map_eq_nil_iff.1 hne, by simp, parts, rfl, rfl, hparts⟩]
      rfl
    | @not negated text hrenders =>
      obtain rfl : inner = '!' :: (text ++ ')' :: rest) := by simpa [bracketed] using htext
      rw [parseContent_not, (hparse _ (Nat.lt_succ_self _)).ok_iff.2 ⟨text, rfl, hrenders⟩]
      rfl
    | @item _ text hitem =>
      obtain rfl : inner = text ++ ')' :: rest := by simpa [bracketed] using htext
      rw [parseContent_item hitem.head_append, parseItem_eq_ok_iff hitem.head_append]
      refine ⟨?_, text, rfl, hitem⟩
      rintro c hc
      obtain rfl := Option.some.inj hc
      decide

/-- Another match is met between brackets exactly where one stands. -/
lemma parseContent_eq_unsupported_iff :
    parseContent parse inner = .error .unsupported ↔ Breaks ('(' :: inner) := by
  constructor
  · intro h
    rcases content_cases inner with ⟨behind, rfl⟩ | ⟨combine, sign, behind, hsign, rfl⟩ | hitem
    · rw [parseContent_not, bind_eq_error_iff] at h
      have hnegated : parse behind = .error .unsupported :=
        h.resolve_right fun ⟨_, _, hpure⟩ => absurd hpure nofun
      exact .not ((hparse behind (Nat.lt_succ_self _)).unsupported_iff.1 hnegated)
    · rw [parseContent_combines hsign, bind_eq_error_iff] at h
      have hfilters : parseSome parse behind = .error .unsupported :=
        h.resolve_right fun ⟨_, _, hpure⟩ => absurd hpure nofun
      obtain ⟨parts, text, rfl, hparts, hbreaks⟩ :=
        (parseSome_eq_unsupported_iff fun cs hcs => hparse cs (Nat.lt_succ_of_le hcs)).1 hfilters
      exact .listed hsign hparts hbreaks
    · rw [parseContent_item hitem, parseItem_eq_unsupported_iff hitem] at h
      exact .item h
  · intro h
    cases h with
    | item hmatch =>
      rw [parseContent_item hmatch.head]
      exact (parseItem_eq_unsupported_iff hmatch.head).2 hmatch
    | @not text hbreaks =>
      rw [parseContent_not, (hparse text (Nat.lt_succ_self _)).unsupported_iff.2 hbreaks]
      rfl
    | @listed combine sign parts text hsign hparts hbreaks =>
      rw [parseContent_combines hsign, (parseSome_eq_unsupported_iff fun cs hcs =>
        hparse cs (Nat.lt_succ_of_le hcs)).2 ⟨parts, text, rfl, hparts, hbreaks⟩]
      rfl

end

/-! ### The parser -/

section

variable {depth : Nat} {cs inner rest : List Char} {filter : Filter}

/-- A parser that refuses what opens with no bracket does right by it. -/
lemma faithful_of_closed {parse : List Char → Except FilterError (Filter × List Char)}
    (hparse : parse cs = .error .malformed) (h : cs.head? ≠ some '(') : Faithful parse cs where
  ok_iff := by
    intro filter rest
    rw [hparse]
    refine iff_of_false nofun ?_
    rintro ⟨text, rfl, hrenders⟩
    exact h (head?_of_renders hrenders)
  unsupported_iff := by
    rw [hparse]
    exact iff_of_false nofun fun hbreaks => h hbreaks.head?

/-- What opens with no bracket is malformed. -/
lemma parseNested_of_closed (h : cs.head? ≠ some '(') :
    parseNested depth cs = .error .malformed := by
  cases depth with
  | zero => rfl
  | succ depth =>
    unfold parseNested
    split
    · exact absurd rfl h
    · rfl

/-- A filter is read if its content is and a closing bracket follows. -/
lemma parseNested_eq_ok_iff : parseNested (depth + 1) ('(' :: inner) = .ok (filter, rest) ↔
    parseContent (parseNested depth) inner = .ok (filter, ')' :: rest) := by
  rw [parseNested, bind_eq_ok_iff]
  constructor
  · rintro ⟨⟨filter', behind⟩, hcontent, h⟩
    rw [hcontent]
    dsimp only at h
    split at h
    · obtain ⟨rfl, rfl⟩ := Prod.mk.inj (Except.ok.inj h)
      rfl
    · exact absurd h nofun
  · intro h
    exact ⟨_, h, rfl⟩

/-- Another match in the content is one of the filter. -/
lemma parseNested_eq_unsupported_iff :
    parseNested (depth + 1) ('(' :: inner) = .error .unsupported ↔
      parseContent (parseNested depth) inner = .error .unsupported := by
  rw [parseNested, bind_eq_error_iff]
  refine or_iff_left ?_
  rintro ⟨⟨filter', behind⟩, -, h⟩
  dsimp only at h
  split at h <;> exact absurd h nofun

/-- The parser reads what is nested no deeper than it can go. -/
theorem faithful_parseNested (h : cs.length ≤ depth) : Faithful (parseNested depth) cs := by
  induction depth generalizing cs with
  | zero =>
    obtain rfl := List.length_eq_zero_iff.1 (Nat.le_zero.1 h)
    exact faithful_of_closed rfl nofun
  | succ depth ih =>
    by_cases hopen : cs.head? = some '('
    · obtain ⟨inner, rfl⟩ := List.head?_eq_some_iff.1 hopen
      have hshorter : ∀ cs, cs.length < inner.length → Faithful (parseNested depth) cs :=
        fun cs hcs => ih (hcs.le.trans (Nat.le_of_succ_le_succ h))
      exact ⟨parseNested_eq_ok_iff.trans (parseContent_eq_ok_iff hshorter),
        parseNested_eq_unsupported_iff.trans (parseContent_eq_unsupported_iff hshorter)⟩
    · exact faithful_of_closed (parseNested_of_closed hopen) hopen

end

section

variable {text : String} {filter : Filter}

/-- A text is parsed as a filter exactly if it is a way to write it, white space around it apart. -/
theorem parse_eq_ok_iff :
    parse text = .ok filter ↔
      Renders Accepted filter (Blank.trimBy Blank.isBlank text.toList) := by
  have hfaithful := faithful_parseNested (le_refl (Blank.trimBy Blank.isBlank text.toList).length)
  rw [parse, bind_eq_ok_iff]
  constructor
  · rintro ⟨⟨filter', rest⟩, hnested, h⟩
    cases rest with
    | nil =>
      obtain rfl := Except.ok.inj h
      obtain ⟨rendered, htext, hrenders⟩ := hfaithful.ok_iff.1 hnested
      rwa [htext, List.append_nil]
    | cons c rest => exact absurd h nofun
  · intro h
    exact ⟨_, hfaithful.ok_iff.2 ⟨_, (List.append_nil _).symm, h⟩, rfl⟩

/-- A text is refused for another kind of match exactly if the parser meets one. -/
theorem parse_eq_unsupported_iff :
    parse text = .error .unsupported ↔ Breaks (Blank.trimBy Blank.isBlank text.toList) := by
  have hfaithful := faithful_parseNested (le_refl (Blank.trimBy Blank.isBlank text.toList).length)
  rw [parse, bind_eq_error_iff, ← hfaithful.unsupported_iff]
  refine or_iff_left ?_
  rintro ⟨⟨filter, rest⟩, -, h⟩
  cases rest <;> exact absurd h nofun

end

/-- A filter in brackets has no white space around it. -/
lemma bare_bracketed (inner : List Char) : Blank.Bare Blank.isBlank (bracketed inner) := by
  refine ⟨fun c hc => ?_, fun c hc => ?_⟩
  · obtain rfl := Option.some.inj hc
    decide
  · rw [bracketed, ← List.cons_append, List.getLast?_concat] at hc
    obtain rfl := Option.some.inj hc
    decide

/-- Every way to write a filter is parsed as that filter, with any white space around it. -/
theorem parse_of_renders {filter : Filter} {left rendered right : List Char}
    (h : Renders TwoDigits filter rendered) (hleft : ∀ c ∈ left, Blank.isBlank c = true)
    (hright : ∀ c ∈ right, Blank.isBlank c = true) :
    parse (String.ofList (left ++ rendered ++ right)) = .ok filter := by
  obtain ⟨inner, rfl⟩ := h.exists_bracketed
  rw [parse_eq_ok_iff, String.toList_ofList,
    Blank.trimBy_eq_iff.2 ⟨bare_bracketed inner, left, right, rfl, hleft, hright⟩]
  exact h.accepted

/-- Names and composites nested, with an escape and an octet beyond ASCII in a value. -/
theorem parse_of_renders_nested :
    Renders TwoDigits (.and [.equal "cn" [0x61, 0x2A, 0xC3, 0xA4], .not (.present "s n")])
        "(&( cn =a\\2aä)(!(s n=*)))".toList ∧
      parse "\t(&( cn =a\\2aä)(!(s n=*))) \n" =
        .ok (.and [.equal "cn" [0x61, 0x2A, 0xC3, 0xA4], .not (.present "s n")]) := by
  have hcn : RendersName "cn" [' ', 'c', 'n', ' '] :=
    rendersName_iff.2 ⟨⟨List.all_iff_forall_prop.1 (by decide), by rintro c ⟨⟩; decide⟩,
      by decide +kernel, by decide⟩
  have hsn : RendersName "s n" ['s', ' ', 'n'] :=
    rendersName_iff.2 ⟨⟨List.all_iff_forall_prop.1 (by decide), by rintro c ⟨⟩; decide⟩,
      by decide +kernel, by decide⟩
  have hstar : TwoDigits 0x2A ['2', 'a'] := by decide
  have hvalue : Spells TwoDigits [0x61, 0x2A, 0xC3, 0xA4]
      (Utf8.encodeChars ['a', '\\', '2', 'a', 'ä']) :=
    .itself (by decide) (.escaped hstar (.itself (by decide) (.itself (by decide) .nil)))
  have hparts : ∀ part ∈ [(Filter.equal "cn" [0x61, 0x2A, 0xC3, 0xA4], "( cn =a\\2aä)".toList),
      (Filter.not (.present "s n"), "(!(s n=*))".toList)], Renders TwoDigits part.1 part.2 :=
    List.forall_mem_cons.2 ⟨.item (.equal hcn hvalue),
      List.forall_mem_cons.2 ⟨.not (.item (.present hsn)), nofun⟩⟩
  have hrenders : Renders TwoDigits
      (.and [.equal "cn" [0x61, 0x2A, 0xC3, 0xA4], .not (.present "s n")])
      "(&( cn =a\\2aä)(!(s n=*)))".toList :=
    .listed .and (List.cons_ne_nil _ _) hparts
  have htext : "\t(&( cn =a\\2aä)(!(s n=*))) \n" =
      String.ofList (['\t'] ++ "(&( cn =a\\2aä)(!(s n=*)))".toList ++ [' ', '\n']) := by
    decide +kernel
  rw [htext]
  exact ⟨hrenders, parse_of_renders hrenders (List.all_eq_true.1 (by decide))
    (List.all_eq_true.1 (by decide))⟩

end DirectoryExchange.Filter

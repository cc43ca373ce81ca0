import DirectoryExchange.Proofs.Dn.Around

/-!
# Names put together

A name is made from a relative name and the name of its parent by a comma between them.  It is
the name of the place below the parent exactly if the relative name, trimmed, is a name with one
part and the name of the parent, trimmed, is a name (`path?_join_iff`).
-/

namespace DirectoryExchange.Dn

/-! ### The octets of keys -/

/-- An insertion in order adds a key and loses none. -/
lemma insertInOrder_perm (a : AvaKey) (keys : List AvaKey) :
    (insertInOrder a keys).Perm (a :: keys) := by
  induction keys with
  | nil => exact .refl _
  | cons b keys ih =>
    unfold insertInOrder
    split
    · exact .refl _
    · exact (ih.cons b).trans (.swap a b keys)

/-- The key of a relative name has the keys of its pairs, in some order. -/
lemma key_perm (rdn : Rdn) : (Rdn.key rdn).Perm (rdn.map Ava.key) := by
  rw [Rdn.key]
  generalize rdn.map Ava.key = keys
  induction keys with
  | nil => exact .refl _
  | cons a keys ih => exact (insertInOrder_perm a _).trans (ih.cons a)

/-- The number of octets in all values of a relative name. -/
def octets (rdn : Rdn) : Nat := (rdn.flatMap (·.value)).length

/-- Spellings of the same relative name have the same number of pairs and of octets. -/
lemma length_and_octets_of_key_eq {a b : Rdn} (h : Rdn.key a = Rdn.key b) :
    a.length = b.length ∧ octets a = octets b := by
  have hperm : (a.map Ava.key).Perm (b.map Ava.key) :=
    (key_perm a).symm.trans (h ▸ key_perm b)
  have hlengths : ∀ rdn : Rdn,
      (rdn.map Ava.key).map (·.value.length) = rdn.map (·.value.length) := by
    intro rdn
    rw [List.map_map]
    exact List.map_congr_left fun ava _ => Bytes.length_lower ava.value
  constructor
  · simpa using hperm.length_eq
  · have hsum := (hperm.map (·.value.length)).sum_nat
    rw [hlengths, hlengths] at hsum
    rw [octets, octets, List.length_flatMap, List.length_flatMap]
    exact hsum

/-! ### A relative name that goes on -/

/-- A value that goes on behind a comma has more octets. -/
lemma length_value_lt {ts : List Token} {ava ava' : Ava} (h : parseAva? ts = some ava)
    {behind : List Token} (h' : parseAva? (ts ++ .plain ',' :: behind) = some ava') :
    ava.value.length < ava'.value.length := by
  obtain ⟨type, value, chars, hcut, hchars, hne, rfl⟩ := parseAva?_eq_some_iff.1 h
  have hlonger := parseAva?_eq_some_iff.2
    ⟨_, _, chars, cutWhere?_append_of_some hcut (.plain ',' :: behind), hchars, hne, rfl⟩
  obtain rfl := Option.some.inj (hlonger.symm.trans h')
  have hcomma : Token.isBlank (.plain ',') = false := by decide
  obtain ⟨right, hvalue, -⟩ := Blank.exists_dropWhile_eq_append Token.isBlank value
  have htrim : trim (value ++ .plain ',' :: behind) = _ :=
    Blank.trimBy_append_cons hcomma behind
  rw [htrim, hvalue]
  have hoctets : 0 < (Token.octets (.plain ',')).length := by decide
  simp only [List.flatMap_append, List.flatMap_cons, List.length_append, trim]
  omega

/-- A relative name has one pair more than plus signs that stand for themselves. -/
lemma length_of_rdnOfTokens? {ts : List Token} {rdn : Rdn} (h : rdnOfTokens? ts = some rdn) :
    rdn.length = ts.countP (· == .plain '+') + 1 := by
  have hlength := congrArg List.length (mapM_eq_some_iff.1 h)
  rw [List.length_map, List.length_map, length_pieces] at hlength
  exact hlength.symm

/-- If all pieces are read then the last one is. -/
lemma exists_of_mapM_append_singleton {f : List Token → Option Ava} {others : List (List Token)}
    {piece : List Token} {rdn : Rdn} (h : (others ++ [piece]).mapM f = some rdn) :
    ∃ avas ava, others.mapM f = some avas ∧ f piece = some ava ∧ rdn = avas ++ [ava] := by
  simp only [List.mapM_append, List.mapM_cons, List.mapM_nil, Option.bind_eq_bind,
    Option.bind_eq_some_iff, pure, Option.some.injEq] at h
  obtain ⟨avas, havas, _, ⟨ava, hava, _, rfl, rfl⟩, rfl⟩ := h
  exact ⟨avas, ava, havas, hava, rfl⟩

/-- A relative name that goes on behind a comma is another one. -/
theorem key_ne_of_append {ts behind : List Token} {rdn rdn' : Rdn}
    (h : rdnOfTokens? ts = some rdn)
    (h' : rdnOfTokens? (ts ++ .plain ',' :: behind) = some rdn') : Rdn.key rdn ≠ Rdn.key rdn' := by
  intro hkey
  obtain ⟨hlength, hoctets⟩ := length_and_octets_of_key_eq hkey
  rw [length_of_rdnOfTokens? h, length_of_rdnOfTokens? h', List.countP_append] at hlength
  have hnone : ∀ t ∈ .plain ',' :: behind, (t == Token.plain '+') = false := by
    have hzero : (Token.plain ',' :: behind).countP (· == .plain '+') = 0 := by omega
    intro t ht
    exact Bool.eq_false_iff.2 (List.countP_eq_zero.1 hzero t ht)
  obtain ⟨others, last, hpieces, hpieces'⟩ := pieces_append_right hnone ts
  rw [rdnOfTokens?, hpieces] at h
  rw [rdnOfTokens?, hpieces'] at h'
  obtain ⟨avas, ava, havas, hava, rfl⟩ := exists_of_mapM_append_singleton h
  obtain ⟨avas', ava', havas', hava', rfl⟩ := exists_of_mapM_append_singleton h'
  obtain rfl : avas = avas' := Option.some.inj (havas.symm.trans havas')
  have hlt := length_value_lt hava hava'
  simp only [octets, List.flatMap_append, List.flatMap_singleton, List.length_append] at hoctets
  omega

/-! ### Joining -/

/-- A relative name is read off the tokens of its text. -/
lemma parseRdn?_eq_some_iff {text : String} {rdn : Rdn} :
    parseRdn? text = some rdn ↔ ∃ ts, Tokenizes text.toList ts ∧ rdnOfTokens? ts = some rdn := by
  rw [parseRdn?, Option.bind_eq_bind, Option.bind_eq_some_iff]
  simp only [tokenize?_eq_some_iff]

/-- White space is no relative name. -/
lemma trim_ne_of_parseRdn? {text : String} {rdn : Rdn} (h : parseRdn? text = some rdn) :
    Blank.trim text ≠ "" := by
  intro hblank
  have hall := List.all_eq_true.1 (Blank.isBlankText_iff.2 hblank)
  obtain ⟨ts, hts, hrdn⟩ := parseRdn?_eq_some_iff.1 h
  rw [hts.unique (tokenizes_blanks hall), rdnOfTokens?_blanks (blanks_map_plain hall)] at hrdn
  simp at hrdn

/-- The path of a name begins with that of its last part. -/
lemma pathOf_append (a b : List Rdn) : pathOf (a ++ b) = pathOf b ++ pathOf a := by
  rw [pathOf, List.map_append, List.reverse_append]
  rfl

lemma length_pathOf (rdns : List Rdn) : (pathOf rdns).length = rdns.length := by
  rw [pathOf, List.length_reverse, List.length_map]

/-- A name gives a path other than the root by its tokens. -/
lemma path?_eq_some_iff {dn : String} {path : Path} (hne : path ≠ []) :
    path? dn = some path ↔
      ∃ ts rdns, Tokenizes dn.toList ts ∧ rdnsOfTokens? ts = some rdns ∧ pathOf rdns = path := by
  rw [path?, Option.map_eq_some_iff]
  simp only [parse?_eq_some_iff]
  constructor
  · rintro ⟨rdns, ⟨-, rfl⟩ | ⟨ts, hts, hrdns⟩, hpath⟩
    · exact absurd hpath.symm hne
    · exact ⟨ts, rdns, hts, hrdns, hpath⟩
  · rintro ⟨ts, rdns, hts, hrdns, hpath⟩
    exact ⟨rdns, .inr ⟨ts, hts, hrdns⟩, hpath⟩

/-- Tokens with one comma are cut at it into two parts. -/
lemma exists_cut_of_countP_eq_one {ts : List Token} (h : ts.countP (· == .plain ',') = 1) :
    ∃ first behind, ts = first ++ .plain ',' :: behind ∧ .plain ',' ∉ first := by
  obtain ⟨t, hmem, ht⟩ := List.countP_pos_iff.1 (h ▸ Nat.one_pos)
  obtain rfl := eq_of_beq ht
  obtain ⟨first, behind, rfl⟩ := List.append_of_mem hmem
  refine ⟨first, behind, rfl, ?_⟩
  intro hmem
  rw [List.countP_append, List.countP_cons_of_pos (by simp)] at h
  have hzero : first.countP (· == .plain ',') = 0 := by omega
  exact List.countP_eq_zero.1 hzero _ hmem (by simp)

/-- A backslash that dangles takes the comma, and what then is the first relative name is too short
to be the one that was meant. -/
lemma not_path_of_dangles {text : String} {rdn : Rdn} {ts : List Token}
    (hts : Tokenizes text.toList ts) (hrdn : rdnOfTokens? ts = some rdn)
    (hdangles : dangles (Blank.trim text).toList = true) {parent : List Char} {tp tj : List Token}
    (htp : Tokenizes parent tp)
    (htj : Tokenizes ((Blank.trim text).toList ++ ',' :: parent) tj) {rdns parents : List Rdn}
    (hparents : rdnsOfTokens? tp = some parents) (hrdns : rdnsOfTokens? tj = some rdns) :
    pathOf rdns ≠ pathOf parents ++ [Rdn.key rdn] := by
  intro hpath
  obtain ⟨a, ha, hwhole⟩ := eq_append_of_dangles hdangles
  obtain ⟨left, right, hchars, hleft, hright⟩ := Blank.exists_around_trim text
  rw [ha, List.append_assoc, List.singleton_append] at htj
  rw [hchars, ha] at hts
  simp only [List.append_assoc, List.singleton_append] at hts
  -- both texts have the same tokens up to the backslash
  obtain ⟨ta, te, rfl, hta, hte⟩ := htj.cut (by decide) hwhole
  obtain ⟨t1, rfl, ht1⟩ := hts.drop_plain fun c hc => ne_backslash_of_isBlank (hleft c hc)
  obtain ⟨ta', te', rfl, hta', hte'⟩ := ht1.cut (by decide) hwhole
  obtain rfl := hta.unique hta'
  obtain rfl : te = .escaped 0x2C :: tp := hte.unique (.special (by decide) htp)
  -- the first part of the joined name ends at a comma in them
  have hone : ta.countP (· == .plain ',') = 1 := by
    have hlength := congrArg List.length hpath
    rw [List.length_append, length_pathOf, length_pathOf, length_of_rdnsOfTokens? hparents,
      length_of_rdnsOfTokens? hrdns, List.countP_append,
      List.countP_cons_of_neg (by decide), List.length_singleton] at hlength
    omega
  obtain ⟨first, behind, rfl, hfirst⟩ := exists_cut_of_countP_eq_one hone
  rw [List.append_assoc, List.cons_append, rdnsOfTokens?_append_cons] at hrdns
  obtain ⟨before, others, hbefore, -, rfl⟩ := hrdns
  rw [rdnsOfTokens?_of_none hfirst, Option.map_eq_some_iff] at hbefore
  obtain ⟨short, hshort, rfl⟩ := hbefore
  have hkey : Rdn.key short = Rdn.key rdn := by
    rw [pathOf_append] at hpath
    exact List.singleton_inj.1 (List.append_inj_right' hpath rfl)
  -- the relative name that was meant goes on behind that comma
  have hnil : Blanks [] := fun t ht => absurd ht List.not_mem_nil
  have haround := rdnOfTokens?_around (blanks_map_plain hleft) hnil
    (first ++ .plain ',' :: behind ++ te')
  rw [List.append_nil, hrdn, List.append_assoc, List.cons_append] at haround
  exact key_ne_of_append hshort haround.symm hkey

/-- What makes the name of the place below a parent has been a name with one part. -/
lemma single_of_join {text : String} {rdn : Rdn} {ts : List Token}
    (hts : Tokenizes text.toList ts) (hrdn : rdnOfTokens? ts = some rdn) {parent : List Char}
    {tp tj : List Token} (htp : Tokenizes parent tp)
    (htj : Tokenizes ((Blank.trim text).toList ++ ',' :: parent) tj) {rdns parents : List Rdn}
    (hparents : rdnsOfTokens? tp = some parents) (hrdns : rdnsOfTokens? tj = some rdns)
    (hpath : pathOf rdns = pathOf parents ++ [Rdn.key rdn]) : Single (Blank.trim text) := by
  cases hdangles : dangles (Blank.trim text).toList with
  | true => exact absurd hpath (not_path_of_dangles hts hrdn hdangles htp htj hparents hrdns)
  | false =>
    obtain ⟨ta, tb, rfl, hta, htb⟩ := htj.cut (by decide) hdangles
    obtain rfl : tb = .plain ',' :: tp := htb.unique (.plain (by decide) htp)
    obtain ⟨before, behind, hbefore, hbehind, rfl⟩ := rdnsOfTokens?_append_cons.1 hrdns
    obtain rfl : behind = parents := Option.some.inj (hbehind.symm.trans hparents)
    rw [pathOf_append] at hpath
    have hlength := congrArg List.length (List.append_cancel_left hpath)
    rw [length_pathOf, List.length_singleton, List.length_eq_one_iff] at hlength
    obtain ⟨other, rfl⟩ := hlength
    exact ⟨other, parse?_eq_some_iff.2 (.inr ⟨ta, hta, hbefore⟩)⟩

/-- A name that is trimmed and still one is the same name. -/
lemma exists_tokenizes_of_isSome {dn : String} {path : Path} (h : path? dn = some path)
    (hne : path ≠ []) (hsome : (parse? (Blank.trim dn)).isSome) :
    ∃ ts rdns, Tokenizes (Blank.trim dn).toList ts ∧ rdnsOfTokens? ts = some rdns ∧
      pathOf rdns = path := by
  obtain ⟨rdns, hrdns, hpath⟩ := Option.map_eq_some_iff.1 h
  rcases parse?_trim hrdns with ⟨htrimmed, -⟩ | ⟨hnone, -⟩
  · rw [← path?_eq_some_iff hne, path?, htrimmed, Option.map_some, hpath]
  · rw [hnone] at hsome
    exact absurd hsome Bool.false_ne_true

/-- When a relative name and the name of a parent make the name of the place below the parent. -/
theorem path?_join_iff {text parent : String} {rdn : Rdn} {path : Path}
    (hrdn : parseRdn? text = some rdn) (hparent : path? parent = some path) (hne : path ≠ []) :
    path? (Blank.trim text ++ "," ++ Blank.trim parent) = some (path ++ [Rdn.key rdn]) ↔
      Single (Blank.trim text) ∧ (parse? (Blank.trim parent)).isSome := by
  have hchars : (Blank.trim text ++ "," ++ Blank.trim parent).toList =
      (Blank.trim text).toList ++ ',' :: (Blank.trim parent).toList := by
    simp
  obtain ⟨ts, hts, hrdn⟩ := parseRdn?_eq_some_iff.1 hrdn
  rw [path?_eq_some_iff (by simp), hchars]
  constructor
  · rintro ⟨tj, rdns, htj, hrdns, hjoined⟩
    have hsome : (parse? (Blank.trim parent)).isSome := by
      have hwhole := htj.not_dangles
      rw [dangles_append_cons (by decide)] at hwhole
      obtain ⟨parents, hparents, -⟩ := Option.map_eq_some_iff.1 hparent
      rcases parse?_trim hparents with ⟨htrimmed, -⟩ | ⟨-, hdangles⟩
      · rw [htrimmed]
        rfl
      · rw [hwhole] at hdangles
        exact absurd hdangles Bool.false_ne_true
    obtain ⟨tp, parents, htp, hparents, rfl⟩ := exists_tokenizes_of_isSome hparent hne hsome
    exact ⟨single_of_join hts hrdn htp htj hparents hrdns hjoined, hsome⟩
  · rintro ⟨hsingle, hsome⟩
    obtain ⟨hdangles, hcomma⟩ := (single_trim_iff hts hrdn).1 hsingle
    obtain ⟨inner, hinner, hrdns⟩ := exists_tokenizes_trim hts hrdn hdangles hcomma
    obtain ⟨tp, parents, htp, hparents, rfl⟩ := exists_tokenizes_of_isSome hparent hne hsome
    refine ⟨inner ++ .plain ',' :: tp, [rdn] ++ parents,
      hinner.append (.plain (by decide) htp),
      rdnsOfTokens?_append_cons.2 ⟨_, _, hrdns, hparents, rfl⟩, ?_⟩
    rw [pathOf_append]
    rfl

/-! ### Splitting -/

/-- The first relative name of a name, and the name of its parent if there is one. -/
theorem splitFirst_of_parse? {dn : String} {rdn : Rdn} {rdns : List Rdn}
    (h : parse? dn = some (rdn :: rdns)) :
    ∃ first ts, Tokenizes (String.toList first) ts ∧ rdnOfTokens? ts = some rdn ∧ .plain ',' ∉ ts ∧
      (rdns = [] ∧ dn = first ∧ splitFirst dn = (Blank.trim first, none) ∨
        ∃ parent, rdns ≠ [] ∧ dn.toList = first.toList ++ ',' :: String.toList parent ∧
          parse? parent = some rdns ∧
          splitFirst dn = (Blank.trim first, some (Blank.trim parent))) := by
  rcases parse?_eq_some_iff.1 h with ⟨-, hnil⟩ | ⟨ts, hts, hrdns⟩
  · exact absurd hnil (List.cons_ne_nil _ _)
  · rcases cutAtComma_of_tokenizes hts with ⟨hnone, hcut⟩ |
      ⟨before, behind, tb, tr, hcut, htb, rfl, hbefore, hbehind⟩
    · rw [rdnsOfTokens?_of_none hnone, Option.map_eq_some_iff] at hrdns
      obtain ⟨only, honly, heq⟩ := hrdns
      obtain ⟨rfl, rfl⟩ := List.cons.inj heq
      refine ⟨dn, ts, hts, honly, hnone, .inl ⟨rfl, rfl, ?_⟩⟩
      rw [splitFirst, hcut]
      simp only [Option.map_none, String.ofList_toList]
    · obtain ⟨first, others, hfirst, hothers, heq⟩ := rdnsOfTokens?_append_cons.1 hrdns
      rw [rdnsOfTokens?_of_none htb, Option.map_eq_some_iff] at hfirst
      obtain ⟨only, honly, rfl⟩ := hfirst
      obtain ⟨rfl, rfl⟩ := List.cons.inj heq
      refine ⟨String.ofList before, tb, by rwa [String.toList_ofList], honly, htb,
        .inr ⟨String.ofList behind, ?_, ?_, ?_, ?_⟩⟩
      · rintro rfl
        exact absurd (length_of_rdnsOfTokens? hothers) (by simp)
      · rw [String.toList_ofList, String.toList_ofList, eq_of_cutAtComma hcut]
      · exact parse?_eq_some_iff.2 (.inr ⟨tr, by rwa [String.toList_ofList], hothers⟩)
      · rw [splitFirst, hcut]
        rfl

/-- A text with tokens has no parent exactly if no comma in it stands for itself. -/
lemma splitFirst_snd_eq_none_iff {text : String} {ts : List Token}
    (hts : Tokenizes text.toList ts) : (splitFirst text).2 = none ↔ .plain ',' ∉ ts := by
  rcases cutAtComma_of_tokenizes hts with ⟨hnone, hcut⟩ | ⟨before, behind, tb, tr, hcut, -, rfl, -⟩
  · exact iff_of_true (by rw [splitFirst, hcut]; rfl) hnone
  · refine iff_of_false ?_ (not_not_intro (by simp))
    rw [splitFirst, hcut]
    exact nofun

/-- A relative name on its own is a name with one part unless a comma in it stands for itself. -/
theorem parse?_eq_singleton_iff {text : String} {rdn : Rdn} :
    parse? text = some [rdn] ↔ parseRdn? text = some rdn ∧ (splitFirst text).2 = none := by
  constructor
  · intro h
    rcases parse?_eq_some_iff.1 h with ⟨-, hnil⟩ | ⟨ts, hts, hrdns⟩
    · exact absurd hnil (List.cons_ne_nil _ _)
    · have hcomma := not_mem_of_rdnsOfTokens? hrdns
      rw [rdnsOfTokens?_of_none hcomma, Option.map_eq_some_iff] at hrdns
      obtain ⟨only, honly, hsame⟩ := hrdns
      obtain rfl := List.singleton_inj.1 hsame
      exact ⟨parseRdn?_eq_some_iff.2 ⟨ts, hts, honly⟩, (splitFirst_snd_eq_none_iff hts).2 hcomma⟩
  · rintro ⟨h, hwhole⟩
    obtain ⟨ts, hts, hrdn⟩ := parseRdn?_eq_some_iff.1 h
    refine parse?_eq_some_iff.2 (.inr ⟨ts, hts, ?_⟩)
    rw [rdnsOfTokens?_of_none ((splitFirst_snd_eq_none_iff hts).1 hwhole), hrdn, Option.map_some]

/-- A relative name with a comma and a name behind it is read as both, in order, unless a comma in
the relative name stands for itself. -/
theorem parse?_join_iff {text parent : String} {rdn : Rdn} {rdns : List Rdn}
    (h : parseRdn? text = some rdn) (hparent : parse? parent = some rdns) (hne : rdns ≠ []) :
    parse? (text ++ "," ++ parent) = some ([rdn] ++ rdns) ↔ (splitFirst text).2 = none := by
  obtain ⟨ts, hts, hrdn⟩ := parseRdn?_eq_some_iff.1 h
  obtain ⟨tp, htp, hrdns⟩ : ∃ tp, Tokenizes parent.toList tp ∧ rdnsOfTokens? tp = some rdns :=
    (parse?_eq_some_iff.1 hparent).resolve_left fun hroot => hne hroot.2
  have hjoined : Tokenizes (text ++ "," ++ parent).toList (ts ++ .plain ',' :: tp) := by
    have := hts.append (.plain (c := ',') (by decide) htp)
    simpa using this
  rw [splitFirst_snd_eq_none_iff hts]
  constructor
  · intro hparse
    rcases parse?_eq_some_iff.1 hparse with ⟨-, hnil⟩ | ⟨tj, htj, hboth⟩
    · exact absurd hnil (List.cons_ne_nil _ _)
    · obtain rfl := hjoined.unique htj
      obtain ⟨before, behind, hbefore, hbehind, heq⟩ := rdnsOfTokens?_append_cons.1 hboth
      obtain rfl := Option.some.inj (hbehind.symm.trans hrdns)
      rw [← List.append_cancel_right heq] at hbefore
      exact not_mem_of_rdnsOfTokens? hbefore
  · intro hcomma
    have hfirst : rdnsOfTokens? ts = some [rdn] := by
      rw [rdnsOfTokens?_of_none hcomma, hrdn, Option.map_some]
    exact parse?_eq_some_iff.2
      (.inr ⟨_, hjoined, rdnsOfTokens?_append_cons.2 ⟨_, _, hfirst, hrdns, rfl⟩⟩)

/-- The name of a parent may be put in place of what stands behind the first relative name. -/
theorem path?_splitFirst_join_iff {dn parent : String} {path parentPath : Path} {key : RdnKey}
    (h : path? dn = some (path ++ [key])) (hparent : path? parent = some parentPath)
    (hne : parentPath ≠ []) (htrimmed : Blank.Trimmed parent) :
    path? ((splitFirst dn).1 ++ "," ++ parent) = some (parentPath ++ [key]) ↔
      Single (splitFirst dn).1 := by
  obtain ⟨rdns, hrdns, hpath⟩ := Option.map_eq_some_iff.1 h
  cases rdns with
  | nil => exact absurd (congrArg List.length hpath) (by simp [pathOf])
  | cons rdn rdns =>
    have hkey : Rdn.key rdn = key := by
      rw [← List.singleton_append, pathOf_append] at hpath
      exact List.singleton_inj.1 (List.append_inj_right' hpath rfl)
    obtain ⟨first, ts, hts, hrdn, -, hsplit⟩ := splitFirst_of_parse? hrdns
    have hfirst : (splitFirst dn).1 = Blank.trim first := by
      rcases hsplit with ⟨-, -, hsplit⟩ | ⟨_, -, -, -, hsplit⟩
      · rw [hsplit]
      · rw [hsplit]
    have hsome : (parse? parent).isSome := by
      obtain ⟨rdns, hparse, -⟩ := Option.map_eq_some_iff.1 hparent
      rw [hparse]
      rfl
    have hjoin := path?_join_iff (parseRdn?_eq_some_iff.2 ⟨ts, hts, hrdn⟩) hparent hne
    rw [htrimmed, hkey] at hjoin
    rw [hfirst, hjoin, and_iff_left hsome]

/-- A relative name right below the root. -/
theorem path?_trim_iff {text : String} {rdn : Rdn} (h : parseRdn? text = some rdn) :
    path? (Blank.trim text) = some [Rdn.key rdn] ↔ Single (Blank.trim text) := by
  obtain ⟨ts, hts, hrdn⟩ := parseRdn?_eq_some_iff.1 h
  constructor
  · intro hpath
    obtain ⟨rdns, hrdns, hkeys⟩ := Option.map_eq_some_iff.1 hpath
    have hlength := congrArg List.length hkeys
    rw [length_pathOf, List.length_singleton, List.length_eq_one_iff] at hlength
    obtain ⟨other, rfl⟩ := hlength
    exact ⟨other, hrdns⟩
  · intro hsingle
    obtain ⟨hdangles, hcomma⟩ := (single_trim_iff hts hrdn).1 hsingle
    obtain ⟨inner, hinner, hrdns⟩ := exists_tokenizes_trim hts hrdn hdangles hcomma
    exact (path?_eq_some_iff (List.cons_ne_nil _ _)).2 ⟨inner, [rdn], hinner, hrdns, rfl⟩

end DirectoryExchange.Dn

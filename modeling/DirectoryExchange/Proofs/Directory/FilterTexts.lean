import DirectoryExchange.Proofs.Directory.Searching
import DirectoryExchange.Proofs.Filter.Parse

/-!
# Texts of filters in searches

A text should be taken for the filter that it renders, be refused as unsupported if it is a filter
all the same, and as malformed otherwise (`Filter.Classified`).  The parser does so exactly if it
meets no other kind of match in a text that is no filter, and no plus sign stands for a digit
(`search_filter`).  A search tells its two refusals by their codes.
-/

namespace DirectoryExchange

namespace Filter

/-- What the characters of a text should be taken for. -/
inductive Classified (text : List Char) : Except FilterError Filter → Prop
  | ok {filter : Filter} (h : Renders TwoDigits filter text) : Classified text (.ok filter)
  | unsupported (h : Complete true text) : Classified text (.error .unsupported)
  | malformed (h : ∀ other, ¬ Complete other text) : Classified text (.error .malformed)

/-- A plus sign is no hexadecimal digit. -/
lemma not_spells_plus {value : Bytes} {rest : List Char} :
    ¬ Spells TwoDigits value (Utf8.encodeChars ('\\' :: '+' :: rest)) := by
  intro h
  obtain ⟨octet, digits, behind, left, hdigits, -, hleft, -⟩ := spells_backslash_iff.1 h
  obtain ⟨high, low, rfl, -⟩ := accepted_iff.1 (.inl hdigits)
  obtain rfl : '+' = high := (List.cons.inj hleft).1
  have hoctet := Hex.octet?_eq_some_iff.2 hdigits
  rw [Hex.octet?, show Hex.value? '+' = none by decide] at hoctet
  cases hoctet

/-- Where the parser takes a text for what it is. -/
theorem classified_parse_iff {text : String} {trimmed : List Char}
    (htrimmed : Blank.trimBy Blank.isBlank text.toList = trimmed) :
    Classified trimmed (parse text) ↔ (Breaks trimmed → Complete true trimmed) ∧
      ∀ filter, Renders Accepted filter trimmed → Renders TwoDigits filter trimmed := by
  subst htrimmed
  constructor
  · intro h
    refine ⟨fun hbreaks => ?_, fun filter hrenders => ?_⟩
    · rw [parse_eq_unsupported_iff.2 hbreaks] at h
      cases h with
      | unsupported hcomplete => exact hcomplete
    · rw [parse_eq_ok_iff.2 hrenders] at h
      cases h with
      | ok hstrict => exact hstrict
  · rintro ⟨hcomplete, hstrict⟩
    cases hparse : parse text with
    | ok filter => exact .ok (hstrict filter (parse_eq_ok_iff.1 hparse))
    | error reason =>
      cases reason with
      | unsupported => exact .unsupported (hcomplete (parse_eq_unsupported_iff.1 hparse))
      | malformed =>
        refine .malformed fun other h => ?_
        cases other with
        | false =>
          obtain ⟨filter, hrenders⟩ := complete_iff.1 h
          rw [parse_eq_ok_iff.2 hrenders.accepted] at hparse
          cases hparse
        | true =>
          rw [parse_eq_unsupported_iff.2 h.breaks] at hparse
          cases hparse

/-- A text is malformed if it neither meets another kind of match nor renders a filter. -/
lemma parse_eq_malformed_iff {text : String} : parse text = .error .malformed ↔
    ¬ Breaks (Blank.trimBy Blank.isBlank text.toList) ∧
      ∀ filter, ¬ Renders Accepted filter (Blank.trimBy Blank.isBlank text.toList) := by
  rw [← parse_eq_unsupported_iff]
  simp only [← parse_eq_ok_iff]
  cases parse text with
  | ok filter => simp
  | error reason => cases reason <;> simp

/-- Every text that is a filter is taken for what it is. -/
theorem Complete.classified {text : String} {other : Bool}
    (h : Complete other (Blank.trimBy Blank.isBlank text.toList)) :
    Classified (Blank.trimBy Blank.isBlank text.toList) (parse text) := by
  cases other with
  | false =>
    obtain ⟨filter, hrenders⟩ := complete_iff.1 h
    rw [parse_eq_ok_iff.2 hrenders.accepted]
    exact .ok hrenders
  | true =>
    rw [parse_eq_unsupported_iff.2 h.breaks]
    exact .unsupported h

end Filter

namespace Directory

variable {d : Directory} {request : SearchRequest}

/-- What cannot be made an entry is an error of the directory itself. -/
lemma code_of_toEntry {held : StoredEntry} {e : DirectoryError}
    (h : StoredEntry.toEntry held = .error e) : e.code = .operationsError := by
  obtain ⟨reason, -, rfl⟩ := mapError_eq_error_iff.1 h
  rfl

/-- A search that has its filter is not refused for it. -/
lemma code_search_of_parse {filter : Filter} (hfilter : Filter.parse request.filter = .ok filter) :
    (d.search request).code ∈
      [ResultCode.success, .invalidDnSyntax, .noSuchObject, .operationsError] := by
  have hfilterOf : filterOf request.filter = .ok filter := by rw [filterOf, hfilter]
  rw [search]
  split
  · exact List.mem_cons_self
  next e hfind =>
  refine List.mem_cons_of_mem _ (show e.code ∈ _ from ?_)
  rw [find, hfilterOf, ok_bind] at hfind
  rcases bind_eq_error_iff.1 hfind with hbase | ⟨base, -, hfind⟩
  · rw [pathOf] at hbase
    split at hbase
    · cases hbase
    · cases hbase
      exact List.mem_cons_self
  split at hfind
  · obtain ⟨held, -, hheld⟩ := exists_of_mapM_eq_error hfind
    rw [code_of_toEntry hheld]
    decide
  · cases hfind
    exact List.mem_cons_of_mem _ List.mem_cons_self

/-- A search tells by its code which of the two refusals its filter met with. -/
lemma code_search_iff :
    ((d.search request).code = .unwillingToPerform ↔
        Filter.parse request.filter = .error .unsupported) ∧
      ((d.search request).code = .protocolError ↔
        Filter.parse request.filter = .error .malformed) := by
  have hothers : ∀ code ∈ [ResultCode.success, .invalidDnSyntax, .noSuchObject, .operationsError],
      code ≠ .unwillingToPerform ∧ code ≠ .protocolError := by decide
  have hcodes : ResultCode.protocolError ≠ .unwillingToPerform := by decide
  cases hparse : Filter.parse request.filter with
  | ok filter =>
    obtain ⟨hsupported, hformed⟩ := hothers _ (code_search_of_parse (d := d) hparse)
    exact ⟨iff_of_false hsupported (by simp), iff_of_false hformed (by simp)⟩
  | error reason =>
    cases reason with
    | malformed =>
      have hfilterOf : filterOf request.filter =
          .error ⟨.protocolError, s!"malformed filter {Quoted.quote request.filter}"⟩ := by
        rw [filterOf, hparse]
      rw [search_of_filterOf hfilterOf]
      exact ⟨iff_of_false hcodes (by simp), iff_of_true rfl rfl⟩
    | unsupported =>
      have hfilterOf : filterOf request.filter =
          .error ⟨.unwillingToPerform, s!"unsupported filter {Quoted.quote request.filter}"⟩ := by
        rw [filterOf, hparse]
      rw [search_of_filterOf hfilterOf]
      exact ⟨iff_of_true rfl rfl, iff_of_false hcodes.symm (by simp)⟩

/-- A search tells by its code what the parser takes the text of its filter for, and the parser
takes every filter for what it is.  It takes any text for what it is exactly if it meets no other
kind of match in a text that is no filter, and reads no digit behind a plus sign, which it does only
where one stands behind a backslash. -/
theorem search_filter (d : Directory) (request : SearchRequest) :
    let text := Blank.trimBy Blank.isBlank request.filter.toList
    ((d.search request).code = .unwillingToPerform ↔ Filter.Breaks text) ∧
      ((d.search request).code = .protocolError ↔
        ¬ Filter.Breaks text ∧ ∀ filter, ¬ Filter.Renders Filter.Accepted filter text) ∧
      (∀ filter, Filter.parse request.filter = .ok filter ↔
        Filter.Renders Filter.Accepted filter text) ∧
      (∀ other, Filter.Complete other text →
        Filter.Classified text (Filter.parse request.filter)) ∧
      (Filter.Classified text (Filter.parse request.filter) ↔
        (Filter.Breaks text → Filter.Complete true text) ∧
          ∀ filter, Filter.Renders Filter.Accepted filter text →
            Filter.Renders Filter.TwoDigits filter text) ∧
      (¬ ['\\', '+'] <:+: text → ∀ filter, Filter.Renders Filter.Accepted filter text →
        Filter.Renders Filter.TwoDigits filter text) := by
  intro text
  refine ⟨?_, ?_, fun filter => Filter.parse_eq_ok_iff, fun other h => h.classified,
    Filter.classified_parse_iff rfl, fun hplus filter h => h.strict hplus⟩
  · rw [code_search_iff.1, Filter.parse_eq_unsupported_iff]
  · rw [code_search_iff.2, Filter.parse_eq_malformed_iff]

/-- A text that breaks off before its bracket closes is refused as a filter with another kind of
match, and a digit behind a plus sign is read as an octet. -/
theorem texts_taken_for_filters :
    (Filter.parse "(cn=a*" = .error .unsupported ∧
        ¬ Filter.Classified "(cn=a*".toList (Filter.parse "(cn=a*")) ∧
      Filter.parse "(cn=\\+5)" = .ok (.equal "cn" [5]) ∧
        ¬ Filter.Classified "(cn=\\+5)".toList (Filter.parse "(cn=\\+5)") := by
  have hname : Filter.RendersName "cn" ['c', 'n'] :=
    Filter.rendersName_iff.2 ⟨⟨List.all_iff_forall_prop.1 (by decide), by rintro c ⟨⟩; decide⟩,
      by decide +kernel, by decide⟩
  have hopen : Filter.parse "(cn=a*" = .error .unsupported := by
    refine Filter.parse_eq_unsupported_iff.2 ?_
    have htext : Blank.trimBy Blank.isBlank "(cn=a*".toList =
      '(' :: (['c', 'n'] ++ '=' :: (['a', '*'] ++ [])) := by decide
    rw [htext]
    exact .item (.substring hname (List.all_iff_forall_prop.1 (by decide)) (by decide) (by decide))
  have hplus : Filter.parse "(cn=\\+5)" = .ok (.equal "cn" [5]) := by
    refine Filter.parse_eq_ok_iff.2 ?_
    have htext : Blank.trimBy Blank.isBlank "(cn=\\+5)".toList =
      Filter.bracketed (['c', 'n'] ++ '=' :: ['\\', '+', '5']) := by decide
    rw [htext]
    exact .item (.equal hname (Filter.spells_backslash_iff.2
      ⟨5, ['+', '5'], [], [], .inr ⟨'5', rfl, by decide⟩, rfl, rfl, .nil⟩))
  refine ⟨⟨hopen, ?_⟩, hplus, ?_⟩
  · rw [hopen]
    intro h
    cases h with
    | unsupported h =>
      obtain ⟨inner, hinner⟩ := h.exists_bracketed
      -- a complete filter ends with a bracket
      have hlast := congrArg List.getLast? hinner
      rw [Filter.bracketed, ← List.cons_append, List.getLast?_concat] at hlast
      exact absurd hlast (by decide)
  · rw [hplus]
    intro h
    cases h with
    | ok h =>
      -- no rendering with two digits is read as this filter, whatever its kind is
      generalize hequal : Filter.equal "cn" [5] = filter at h
      have htext : "(cn=\\+5)".toList = Filter.bracketed ['c', 'n', '=', '\\', '+', '5'] := by
        decide
      generalize "(cn=\\+5)".toList = text at h htext
      cases h with
      | listed hsign => cases hsign <;> cases hequal
      | not => cases hequal
      | item h =>
        cases h with
        | present => cases hequal
        | @equal name label raw value hname hvalue =>
          have hlabel : ∀ c ∈ label, (c == '=') = false := fun c hc => beq_false_of_ne fun heq =>
            (Filter.rendersName_iff.1 hname).1.chars c hc (heq ▸ by decide)
          have hcut : cutWhere? (· == '=') ['c', 'n', '=', '\\', '+', '5'] = some (label, raw) :=
            cutWhere?_eq_some_iff.2
              ⟨'=', rfl, hlabel, (Filter.bracketed_injective htext).symm⟩
          obtain ⟨-, rfl⟩ : ['c', 'n'] = label ∧ ['\\', '+', '5'] = raw :=
            Prod.mk.inj (Option.some.inj hcut)
          exact Filter.not_spells_plus hvalue

end Directory

end DirectoryExchange

import DirectoryExchange.Dn.Key
import DirectoryExchange.Proofs.Text.Blank
import DirectoryExchange.Proofs.Traversal
import Mathlib.Data.Option.Basic

/-!
# What distinguished names give

Every pair of a relative name has a type (`type_ne_of_mem_parse?`), and only a blank text is the
name of the root (`trim_ne_of_path?`).
-/

namespace DirectoryExchange.Dn

/-- A pair is cut at its first equals sign; what stands in front of it is a type, and nothing in the
type is escaped. -/
lemma parseAva?_eq_some_iff {tokens : List Token} {ava : Ava} :
    parseAva? tokens = some ava ↔ ∃ type value chars,
      cutWhere? (· == .plain '=') tokens = some (type, value) ∧
        plainChars? (trim type) = some chars ∧ chars ≠ [] ∧
          ⟨String.ofList chars, (trim value).flatMap Token.octets⟩ = ava := by
  rw [parseAva?, Option.bind_eq_bind, Option.bind_eq_some_iff]
  constructor
  · rintro ⟨⟨type, value⟩, hcut, h⟩
    obtain ⟨chars, hchars, h⟩ := Option.bind_eq_some_iff.1 h
    obtain ⟨_, hguard, h⟩ := Option.bind_eq_some_iff.1 h
    exact ⟨type, value, chars, hcut, hchars, (Option.guard_eq_some' _).1 hguard, Option.some.inj h⟩
  · rintro ⟨type, value, chars, hcut, hchars, hne, rfl⟩
    have hguard : (guard (chars ≠ []) : Option Unit) = some () := (Option.guard_eq_some' _).2 hne
    exact ⟨(type, value), hcut, Option.bind_eq_some_iff.2 ⟨chars, hchars,
      Option.bind_eq_some_iff.2 ⟨(), hguard, rfl⟩⟩⟩

/-- A pair that is read has a type. -/
lemma type_ne_of_parseAva? {tokens : List Token} {ava : Ava} (h : parseAva? tokens = some ava) :
    ava.type ≠ "" := by
  obtain ⟨type, value, chars, -, -, hne, rfl⟩ := parseAva?_eq_some_iff.1 h
  intro hempty
  rw [← String.toList_inj, String.toList_ofList] at hempty
  exact hne hempty

lemma type_ne_of_rdnOfTokens? {tokens : List Token} {rdn : Rdn}
    (h : rdnOfTokens? tokens = some rdn) : ∀ ava ∈ rdn, ava.type ≠ "" := by
  intro ava hava
  have hmem : some ava ∈ rdn.map some := List.mem_map_of_mem hava
  rw [← mapM_eq_some_iff.1 h] at hmem
  obtain ⟨piece, -, hpiece⟩ := List.mem_map.1 hmem
  exact type_ne_of_parseAva? hpiece

/-- Every pair of a relative name that is read on its own has a type. -/
lemma type_ne_of_parseRdn? {text : String} {rdn : Rdn} (h : parseRdn? text = some rdn) :
    ∀ ava ∈ rdn, ava.type ≠ "" := by
  rw [parseRdn?, Option.bind_eq_bind, Option.bind_eq_some_iff] at h
  obtain ⟨tokens, -, h⟩ := h
  exact type_ne_of_rdnOfTokens? h

/-- Every pair of a distinguished name has a type. -/
theorem type_ne_of_mem_parse? {dn : String} {rdns : List Rdn} (h : parse? dn = some rdns)
    {rdn : Rdn} (hrdn : rdn ∈ rdns) : ∀ ava ∈ rdn, ava.type ≠ "" := by
  unfold parse? at h
  split at h
  · obtain rfl := Option.some.inj h
    exact absurd hrdn List.not_mem_nil
  · rw [Option.bind_eq_bind, Option.bind_eq_some_iff] at h
    obtain ⟨tokens, -, h⟩ := h
    have hmem : some rdn ∈ rdns.map some := List.mem_map_of_mem hrdn
    rw [← mapM_eq_some_iff.1 h] at hmem
    obtain ⟨piece, -, hpiece⟩ := List.mem_map.1 hmem
    exact type_ne_of_rdnOfTokens? hpiece

/-- A text that names something below the root is not blank. -/
theorem trim_ne_of_path? {dn : String} {path : Path} (h : path? dn = some path) (hne : path ≠ []) :
    Blank.trim dn ≠ "" := by
  intro hblank
  have hparse : parse? dn = some [] := by
    rw [parse?, if_pos (Blank.isBlankText_iff.2 hblank)]
  rw [path?, hparse] at h
  exact hne (Option.some.inj h).symm

end DirectoryExchange.Dn

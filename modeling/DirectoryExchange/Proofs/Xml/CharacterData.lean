import DirectoryExchange.Proofs.Text.Utf8
import DirectoryExchange.Xml.Escape
import DirectoryExchange.Xml.Markup

/-!
# Character data in any spelling

A character may be written as it is, by the name of its entity, or by its number, in either base and
with any number of zeros in front (`Denotes`).  However it is written, the same text is read
(`CharacterData.unescape?_written`).
-/

namespace DirectoryExchange.Xml

/-! ### References -/

/-- Whether the character is the digit for the number, with letters in either case. -/
def IsDigit (c : Char) (d : Nat) : Prop := c = Nat.digitChar d ∨ c = (Nat.digitChar d).toUpper

instance (c : Char) (d : Nat) : Decidable (IsDigit c d) := inferInstanceAs (Decidable (_ ∨ _))

/-- One or more digits of a number. -/
inductive Numeral (base : Nat) : List Char → Nat → Prop
  | digit {c : Char} {d : Nat} (hc : IsDigit c d) (hd : d < base) : Numeral base [c] d
  | more {cs : List Char} {n : Nat} {c : Char} {d : Nat} (h : Numeral base cs n)
      (hc : IsDigit c d) (hd : d < base) : Numeral base (cs ++ [c]) (n * base + d)

/-- What may stand between `&` and `;` for a character. -/
inductive Refers : List Char → Char → Prop
  | entity {name : List Char} {c : Char} (h : (c, name) ∈ entities) : Refers name c
  | decimal {digits : List Char} {c : Char} (h : Numeral 10 digits c.toNat) (hc : c.toNat ≠ 0) :
      Refers ('#' :: digits) c
  | hexadecimal {digits : List Char} {c : Char} (h : Numeral 16 digits c.toNat)
      (hc : c.toNat ≠ 0) : Refers ('#' :: 'x' :: digits) c

/-- Whether the first characters are a way to write the second. -/
inductive Denotes : List Char → List Char → Prop
  | nil : Denotes [] []
  | plain {c : Char} {written meant : List Char} (hbracket : c ≠ '<') (hreference : c ≠ '&')
      (h : Denotes written meant) : Denotes (c :: written) (c :: meant)
  | reference {name : List Char} {c : Char} {written meant : List Char} (hname : Refers name c)
      (h : Denotes written meant) : Denotes ('&' :: (name ++ ';' :: written)) (c :: meant)

/-- An entity stands for its character, and its name has no mark in it. -/
lemma entity_facts :
    ∀ p ∈ entities, resolve? p.2 = some p.1 ∧ ∀ x ∈ p.2, x ∉ ['<', '&', ';'] := by
  have hmarks : ∀ p ∈ entities, ∀ x ∈ p.2, x ∉ ['<', '&', ';'] := by simp [entities]
  have hnames : ∀ p ∈ entities, resolve? p.2 = some p.1 := by decide
  exact fun p hp => ⟨hnames p hp, hmarks p hp⟩

/-- A digit is read as its number and is no mark of a reference. -/
lemma IsDigit.facts {c : Char} {d : Nat} (h : IsDigit c d) (hd : d < 16) :
    Hex.value? c = some d ∧ c ∉ ['x', '<', '&', ';'] := by
  have hlower : ∀ d < 16, Hex.value? (Nat.digitChar d) = some d ∧
      Nat.digitChar d ∉ ['x', '<', '&', ';'] := by
    decide
  have hupper : ∀ d < 16, Hex.value? (Nat.digitChar d).toUpper = some d ∧
      (Nat.digitChar d).toUpper ∉ ['x', '<', '&', ';'] := by
    decide
  rcases h with rfl | rfl
  · exact hlower d hd
  · exact hupper d hd

/-- Digits in two parts are read part by part. -/
lemma numberFrom?_append (base sofar : Nat) (cs ds : List Char) :
    numberFrom? base sofar (cs ++ ds) =
      (numberFrom? base sofar cs).bind fun n => numberFrom? base n ds := by
  induction cs generalizing sofar with
  | nil => rfl
  | cons c cs ih =>
    rw [List.cons_append, numberFrom?, numberFrom?]
    split
    · split
      · exact ih _
      · rfl
    · rfl

section

variable {base n : Nat} {digits : List Char}

/-- A numeral is read as its number. -/
lemma Numeral.number? (h : Numeral base digits n) (hbase : base ≤ 16) :
    Xml.number? base digits = some n := by
  have hfrom : digits ≠ [] ∧ numberFrom? base 0 digits = some n := by
    induction h with
    | digit hc hd =>
      obtain ⟨hvalue, -⟩ := hc.facts (by omega)
      refine ⟨List.cons_ne_nil _ _, ?_⟩
      simp [numberFrom?, hvalue, hd]
    | more _ hc hd ih =>
      obtain ⟨hvalue, -⟩ := hc.facts (by omega)
      refine ⟨by simp, ?_⟩
      rw [numberFrom?_append, ih.2]
      simp [numberFrom?, hvalue, hd]
  rw [Xml.number?, if_neg hfrom.1, hfrom.2]

/-- A numeral has no marks in it. -/
lemma Numeral.not_mark (h : Numeral base digits n) (hbase : base ≤ 16) :
    ∀ c ∈ digits, c ∉ ['x', '<', '&', ';'] := by
  induction h with
  | digit hc hd => exact List.forall_mem_singleton.2 (hc.facts (by omega)).2
  | more _ hc hd ih =>
    intro c hmem
    rcases List.mem_append.1 hmem with hmem | hmem
    · exact ih c hmem
    · rw [List.mem_singleton.1 hmem]
      exact (hc.facts (by omega)).2

end

/-- A character other than zero is known by its number. -/
lemma charOfNumber?_toNat {c : Char} (hc : c.toNat ≠ 0) : charOfNumber? c.toNat = some c := by
  rw [charOfNumber?, if_pos ⟨hc, c.valid⟩, Char.ofNat_toNat]

namespace Refers

variable {name : List Char} {c : Char}

/-- A name or number that refers to a character is resolved to it. -/
lemma resolve? (h : Refers name c) : Xml.resolve? name = some c := by
  cases h with
  | entity h => exact (entity_facts _ h).1
  | @decimal digits _ h hc =>
    have hx : ∀ rest, digits ≠ 'x' :: rest := by
      rintro rest rfl
      exact h.not_mark (by decide) 'x' List.mem_cons_self (by decide)
    rw [Xml.resolve?.eq_2 _ hx, h.number? (by decide), Option.bind_some, charOfNumber?_toNat hc]
  | hexadecimal h hc =>
    rw [Xml.resolve?, h.number? (by decide), Option.bind_some, charOfNumber?_toNat hc]

lemma not_mark (h : Refers name c) : ∀ x ∈ name, x ∉ ['<', '&', ';'] := by
  have hdigits : ∀ {base n digits}, Numeral base digits n → base ≤ 16 →
      ∀ x ∈ digits, x ∉ ['<', '&', ';'] :=
    fun h hbase x hx hmark => h.not_mark hbase x hx (List.mem_cons_of_mem _ hmark)
  cases h with
  | entity h => exact (entity_facts _ h).2
  | decimal h _ => exact List.forall_mem_cons.2 ⟨by decide, hdigits h (by decide)⟩
  | hexadecimal h _ =>
    exact List.forall_mem_cons.2
      ⟨by decide, List.forall_mem_cons.2 ⟨by decide, hdigits h (by decide)⟩⟩

end Refers

/-- A name without marks is taken up as a whole. -/
lemma unescapeFrom_name {name : List Char} (hend : ';' ∉ name) (hbegin : '&' ∉ name)
    (sofar rest : List Char) :
    unescapeFrom (some sofar) (name ++ rest) =
      unescapeFrom (some (name.reverse ++ sofar)) rest := by
  induction name generalizing sofar with
  | nil => rfl
  | cons c name ih =>
    rw [List.mem_cons, not_or] at hend hbegin
    rw [List.cons_append, unescapeFrom]
    simp only [Ne.symm hend.1, Ne.symm hbegin.1, if_false]
    rw [ih hend.2 hbegin.2]
    simp

/-- Written characters are read as they are meant. -/
theorem Denotes.unescapeFrom {written meant : List Char} (h : Denotes written meant) :
    unescapeFrom none written = some meant := by
  induction h with
  | nil => rfl
  | plain _ hreference _ ih => rw [Xml.unescapeFrom, if_neg hreference, ih, Option.map_some]
  | @reference name _ _ _ hname _ ih =>
    have hend : ';' ∉ name := fun h => hname.not_mark _ h (by decide)
    have hbegin : '&' ∉ name := fun h => hname.not_mark _ h (by decide)
    rw [Xml.unescapeFrom, if_pos rfl, unescapeFrom_name hend hbegin, Xml.unescapeFrom]
    simp only [if_true, List.append_nil, List.reverse_reverse, hname.resolve?, ih, Option.map_some]

/-- Behind a character that stands for itself the rest denotes something as well. -/
lemma Denotes.exists_tail {c : Char} {written meant : List Char} (h : Denotes (c :: written) meant)
    (hc : c ≠ '&') : ∃ meant', Denotes written meant' := by
  cases h with
  | plain _ _ h => exact ⟨_, h⟩
  | reference => exact absurd rfl hc

/-- Character data in any spelling has no bracket in it. -/
lemma Denotes.not_bracket {written meant : List Char} (h : Denotes written meant) :
    '<' ∉ written := by
  induction h with
  | nil => exact List.not_mem_nil
  | plain hbracket _ _ ih => simp [Ne.symm hbracket, ih]
  | @reference name _ _ _ hname _ ih =>
    have hmark : '<' ∉ name := fun h => hname.not_mark _ h (by decide)
    simp [hmark, ih]

/-! ### Character data -/

/-- Character data as it is written and as it is meant. -/
structure CharacterData where
  /-- The characters with their references. -/
  written : String
  /-- The characters that are meant. -/
  meant : String
  /-- The one is a way to write the other. -/
  denotes : Denotes written.toList meant.toList

namespace CharacterData

/-- The character data as octets. -/
def octets (d : CharacterData) : Bytes := Utf8.encode d.written

/-- Character data is read as it is meant. -/
theorem unescape?_octets (d : CharacterData) : unescape? d.octets = some d.meant := by
  simp [unescape?, octets, Utf8.decode?_encode, d.denotes.unescapeFrom]

lemma openBracket_not_mem (d : CharacterData) : openBracket ∉ d.octets := by
  rw [octets, Utf8.encode, Utf8.mem_encodeChars_iff (by decide)]
  exact d.denotes.not_bracket

end CharacterData

end DirectoryExchange.Xml

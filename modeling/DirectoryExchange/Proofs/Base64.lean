import DirectoryExchange.Base64
import DirectoryExchange.Proofs.Bytes
import Mathlib.Data.Option.Basic

/-!
# Base64 there and back

Octets that were written in base64 are read back, whatever they are.  A digit is read as the number
that it was written for, so that the claim comes down to cutting octets into groups of six bits and
putting them together again.
-/

namespace DirectoryExchange.Base64

open Bytes (ofNat_eq_of_toNat_eq)

/-! ### One digit -/

/-- A digit has the value that it was chosen for, and is neither padding nor white space. -/
lemma digit_facts : ∀ n < 64,
    value? (digit n) = some n ∧ digit n ≠ pad ∧ isGap (digit n) = false := by
  decide +kernel

/-- A digit is read as the number that it was written for. -/
lemma value?_digit {n : Nat} (h : n < 64) : value? (digit n) = some n := (digit_facts n h).1

lemma digit_ne_pad {n : Nat} (h : n < 64) : digit n ≠ pad := (digit_facts n h).2.1

lemma isGap_digit {n : Nat} (h : n < 64) : isGap (digit n) = false := (digit_facts n h).2.2

/-- Digits are in ASCII, so that the facts on them can be checked number by number. -/
lemma toNat_lt_of_value? {c : Char} {n : Nat} (h : value? c = some n) : c.toNat < 128 := by
  refine Nat.lt_of_not_le fun hc => ?_
  have hplus : c ≠ '+' := fun h => absurd hc (by rw [h]; decide)
  have hslash : c ≠ '/' := fun h => absurd hc (by rw [h]; decide)
  have hupper : ¬ (0x41 ≤ c.toNat ∧ c.toNat ≤ 0x5A) := by omega
  have hlower : ¬ (0x61 ≤ c.toNat ∧ c.toNat ≤ 0x7A) := by omega
  have hfigure : ¬ (0x30 ≤ c.toNat ∧ c.toNat ≤ 0x39) := by omega
  simp only [value?, if_neg hupper, if_neg hlower, if_neg hfigure, if_neg hplus, if_neg hslash] at h
  cases h

/-- Every value that is read is below 64, and is written as the character it was read from. -/
lemma value_facts : ∀ k < 128, ∀ n ∈ value? (Char.ofNat k), n < 64 ∧ digit n = Char.ofNat k := by
  decide +kernel

/-- A value is read off its own digit and off no other character. -/
lemma value?_eq_some_iff {c : Char} {n : Nat} : value? c = some n ↔ n < 64 ∧ digit n = c := by
  constructor
  · intro h
    have hfacts := value_facts c.toNat (toNat_lt_of_value? h)
    rw [Char.ofNat_toNat] at hfacts
    exact hfacts n h
  · rintro ⟨hn, rfl⟩
    exact value?_digit hn

/-! ### One group -/

/-- A group of two digits is read as one octet if the bits behind the octet are zero. -/
lemma decodeOne?_eq_some_iff {a b : Char} {v : Bytes} :
    decodeOne? a b = some v ↔ ∃ m < 64, digit m = a ∧ ∃ n < 64, digit n = b ∧ n % 16 = 0 ∧
      [UInt8.ofNat (m * 4 + n / 16)] = v := by
  simp [decodeOne?, Option.bind_eq_some_iff, value?_eq_some_iff, Option.guard_eq_some', and_assoc]

/-- A group of three digits is read as two octets if the bits behind these are zero. -/
lemma decodeTwo?_eq_some_iff {a b c : Char} {v : Bytes} :
    decodeTwo? a b c = some v ↔ ∃ m < 64, digit m = a ∧ ∃ n < 64, digit n = b ∧
      ∃ p < 64, digit p = c ∧ p % 4 = 0 ∧
      [UInt8.ofNat (m * 4 + n / 16), UInt8.ofNat (n % 16 * 16 + p / 4)] = v := by
  simp [decodeTwo?, Option.bind_eq_some_iff, value?_eq_some_iff, Option.guard_eq_some', and_assoc]

/-- Any four digits are read as three octets. -/
lemma decodeThree?_eq_some_iff {a b c d : Char} {v : Bytes} :
    decodeThree? a b c d = some v ↔ ∃ m < 64, digit m = a ∧ ∃ n < 64, digit n = b ∧
      ∃ p < 64, digit p = c ∧ ∃ q < 64, digit q = d ∧
      [UInt8.ofNat (m * 4 + n / 16), UInt8.ofNat (n % 16 * 16 + p / 4),
        UInt8.ofNat (p % 4 * 64 + q)] = v := by
  simp [decodeThree?, Option.bind_eq_some_iff, value?_eq_some_iff, and_assoc]

/-- The two digits of one octet are read as that octet. -/
lemma decodeOne?_digits (a : UInt8) :
    decodeOne? (digit (a.toNat / 4)) (digit (a.toNat % 4 * 16)) = some [a] := by
  have ha := a.toNat_lt
  have h₁ : a.toNat / 4 < 64 := by omega
  have h₂ : a.toNat % 4 * 16 < 64 := by omega
  have hunused : a.toNat % 4 * 16 % 16 = 0 := by omega
  have hoctet : UInt8.ofNat (a.toNat / 4 * 4 + a.toNat % 4 * 16 / 16) = a :=
    ofNat_eq_of_toNat_eq (by omega)
  exact decodeOne?_eq_some_iff.2 ⟨_, h₁, rfl, _, h₂, rfl, hunused, by rw [hoctet]⟩

/-- The three digits of two octets are read as these. -/
lemma decodeTwo?_digits (a b : UInt8) :
    decodeTwo? (digit (a.toNat / 4)) (digit (a.toNat % 4 * 16 + b.toNat / 16))
      (digit (b.toNat % 16 * 4)) = some [a, b] := by
  have ha := a.toNat_lt
  have hb := b.toNat_lt
  have h₁ : a.toNat / 4 < 64 := by omega
  have h₂ : a.toNat % 4 * 16 + b.toNat / 16 < 64 := by omega
  have h₃ : b.toNat % 16 * 4 < 64 := by omega
  have hunused : b.toNat % 16 * 4 % 4 = 0 := by omega
  have hfirst : UInt8.ofNat (a.toNat / 4 * 4 + (a.toNat % 4 * 16 + b.toNat / 16) / 16) = a :=
    ofNat_eq_of_toNat_eq (by omega)
  have hsecond : UInt8.ofNat ((a.toNat % 4 * 16 + b.toNat / 16) % 16 * 16 +
      b.toNat % 16 * 4 / 4) = b := ofNat_eq_of_toNat_eq (by omega)
  exact decodeTwo?_eq_some_iff.2 ⟨_, h₁, rfl, _, h₂, rfl, _, h₃, rfl, hunused,
    by rw [hfirst, hsecond]⟩

/-- The four digits of three octets are read as these. -/
lemma decodeThree?_digits (a b c : UInt8) :
    decodeThree? (digit (a.toNat / 4)) (digit (a.toNat % 4 * 16 + b.toNat / 16))
      (digit (b.toNat % 16 * 4 + c.toNat / 64)) (digit (c.toNat % 64)) = some [a, b, c] := by
  have ha := a.toNat_lt
  have hb := b.toNat_lt
  have hc := c.toNat_lt
  have h₁ : a.toNat / 4 < 64 := by omega
  have h₂ : a.toNat % 4 * 16 + b.toNat / 16 < 64 := by omega
  have h₃ : b.toNat % 16 * 4 + c.toNat / 64 < 64 := by omega
  have h₄ : c.toNat % 64 < 64 := by omega
  have hfirst : UInt8.ofNat (a.toNat / 4 * 4 + (a.toNat % 4 * 16 + b.toNat / 16) / 16) = a :=
    ofNat_eq_of_toNat_eq (by omega)
  have hsecond : UInt8.ofNat ((a.toNat % 4 * 16 + b.toNat / 16) % 16 * 16 +
      (b.toNat % 16 * 4 + c.toNat / 64) / 4) = b := ofNat_eq_of_toNat_eq (by omega)
  have hthird : UInt8.ofNat ((b.toNat % 16 * 4 + c.toNat / 64) % 4 * 64 + c.toNat % 64) = c :=
    ofNat_eq_of_toNat_eq (by omega)
  exact decodeThree?_eq_some_iff.2 ⟨_, h₁, rfl, _, h₂, rfl, _, h₃, rfl, _, h₄, rfl,
    by rw [hfirst, hsecond, hthird]⟩

/-! ### Any number of groups -/

/-- The digits of octets give the octets back. -/
theorem decodeChars?_encodeChars (v : Bytes) : decodeChars? (encodeChars v) = some v := by
  induction v using encodeChars.induct with
  | case1 => rfl
  | case2 a =>
    rw [encodeChars, decodeChars?]
    simp [decodeOne?_digits]
  | case3 a b =>
    have hb := b.toNat_lt
    rw [encodeChars, decodeChars?]
    simp [decodeTwo?_digits, digit_ne_pad (show b.toNat % 16 * 4 < 64 by omega)]
  | case4 a b c rest ih =>
    have hd : digit (c.toNat % 64) ≠ pad := digit_ne_pad (by omega)
    rw [encodeChars, decodeChars?]
    simp [hd, decodeThree?_digits, ih]

/-- Nothing but digits and padding is written. -/
lemma mem_encodeChars {v : Bytes} {c : Char} (h : c ∈ encodeChars v) :
    c = pad ∨ ∃ n < 64, c = digit n := by
  -- every digit is a quotient or a remainder below 64
  induction v using encodeChars.induct with
  | case1 => simp [encodeChars] at h
  | case2 a =>
    have ha := a.toNat_lt
    simp only [encodeChars, List.mem_cons, List.not_mem_nil, or_false] at h
    rcases h with rfl | rfl | rfl | rfl
    · exact .inr ⟨_, by omega, rfl⟩
    · exact .inr ⟨_, by omega, rfl⟩
    · exact .inl rfl
    · exact .inl rfl
  | case3 a b =>
    have ha := a.toNat_lt
    have hb := b.toNat_lt
    simp only [encodeChars, List.mem_cons, List.not_mem_nil, or_false] at h
    rcases h with rfl | rfl | rfl | rfl
    · exact .inr ⟨_, by omega, rfl⟩
    · exact .inr ⟨_, by omega, rfl⟩
    · exact .inr ⟨_, by omega, rfl⟩
    · exact .inl rfl
  | case4 a b c rest ih =>
    have ha := a.toNat_lt
    have hb := b.toNat_lt
    have hc := c.toNat_lt
    simp only [encodeChars, List.mem_cons] at h
    rcases h with rfl | rfl | rfl | rfl | h
    · exact .inr ⟨_, by omega, rfl⟩
    · exact .inr ⟨_, by omega, rfl⟩
    · exact .inr ⟨_, by omega, rfl⟩
    · exact .inr ⟨_, by omega, rfl⟩
    · exact ih h

/-- A property of all digits and of the padding holds of everything written. -/
lemma forall_mem_encodeChars {P : Char → Prop} (hpad : P pad) (hdigit : ∀ n < 64, P (digit n))
    (v : Bytes) : ∀ c ∈ encodeChars v, P c := by
  intro c hc
  rcases mem_encodeChars hc with rfl | ⟨n, hn, rfl⟩
  · exact hpad
  · exact hdigit n hn

/-- No digit and no padding is white space. -/
lemma isGap_of_mem_encodeChars (v : Bytes) : ∀ c ∈ encodeChars v, isGap c = false :=
  forall_mem_encodeChars (P := (isGap · = false)) rfl (fun _ hn => isGap_digit hn) v

/-- Octets written in base64 are read back. -/
theorem decode?_encode (v : Bytes) : decode? (encode v) = some v := by
  have hgaps : ((encodeChars v).filter fun c => !isGap c) = encodeChars v :=
    List.filter_eq_self.2 fun c hc => by simp [isGap_of_mem_encodeChars v c hc]
  rw [decode?, encode, String.toList_ofList, hgaps, decodeChars?_encodeChars]

end DirectoryExchange.Base64

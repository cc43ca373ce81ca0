import DirectoryExchange.Proofs.Bytes
import DirectoryExchange.Proofs.Traversal
import DirectoryExchange.Text.Utf8

/-!
# UTF-8 there and back

Octets are a text exactly if they are what the text is written as (`decode?_eq_some_iff`): reading
gives back what was written, and reads nothing else.  The first half follows a character through
the octets that write it; the second is an invariant of the scan, which never loses an octet of a
character that has begun.
-/

namespace DirectoryExchange.Utf8

open Bytes (toNat_ofNat_of_lt ofNat_eq_of_toNat_eq)

/-! ### The conditions on octets as numbers -/

/-- A tail lies between 0x80 and 0xBF. -/
lemma isTail_iff (b : UInt8) : isTail b = true ↔ 0x80 ≤ b.toNat ∧ b.toNat < 0xC0 := by
  simp [isTail, UInt8.le_iff_toNat_le, UInt8.lt_iff_toNat_lt]

/-- Two octets open a character of three if this is neither shorter nor a surrogate. -/
lemma opensThree_iff (a b : UInt8) :
    opensThree a b = true ↔ 0xE0 ≤ a.toNat ∧ a.toNat < 0xF0 ∧ 0x80 ≤ b.toNat ∧ b.toNat < 0xC0 ∧
      (a.toNat = 0xE0 → 0xA0 ≤ b.toNat) ∧ (a.toNat = 0xED → b.toNat < 0xA0) := by
  simp only [opensThree, Bool.and_eq_true, Bool.or_eq_true, decide_eq_true_eq, bne_iff_ne, ne_eq,
    isTail_iff, UInt8.le_iff_toNat_le, UInt8.lt_iff_toNat_lt, ← UInt8.toNat_inj]
  simp only [UInt8.reduceToNat]
  omega

/-- Two octets open a character of four if this is neither shorter nor beyond the last one. -/
lemma opensFour_iff (a b : UInt8) :
    opensFour a b = true ↔ 0xF0 ≤ a.toNat ∧ a.toNat < 0xF5 ∧ 0x80 ≤ b.toNat ∧ b.toNat < 0xC0 ∧
      (a.toNat = 0xF0 → 0x90 ≤ b.toNat) ∧ (a.toNat = 0xF4 → b.toNat < 0x90) := by
  simp only [opensFour, Bool.and_eq_true, Bool.or_eq_true, decide_eq_true_eq, bne_iff_ne, ne_eq,
    isTail_iff, UInt8.le_iff_toNat_le, UInt8.lt_iff_toNat_lt, ← UInt8.toNat_inj]
  simp only [UInt8.reduceToNat]
  omega

lemma begin_of_lt {a : UInt8} (h : a.toNat < 0x80) :
    begin a = ([some (Char.ofNat a.toNat)], .empty) := by
  have : a < 0x80 := UInt8.lt_iff_toNat_lt.2 h
  rw [begin, if_pos this]

/-- An octet that opens a longer character is kept. -/
lemma begin_of_le {a : UInt8} (h₁ : 0xC2 ≤ a.toNat) (h₂ : a.toNat < 0xF5) :
    begin a = ([], .one a) := by
  have h : ¬ a < 0x80 := by
    simp only [UInt8.lt_iff_toNat_lt, UInt8.reduceToNat]
    omega
  have h' : (0xC2 ≤ a && a < 0xF5) = true := by
    rw [Bool.and_eq_true, decide_eq_true_eq, decide_eq_true_eq]
    exact ⟨UInt8.le_iff_toNat_le.2 h₁, UInt8.lt_iff_toNat_lt.2 h₂⟩
  rw [begin, if_neg h, if_pos h']

/-- Two octets are a character by the bits of both. -/
lemma two?_eq_some_iff {a b : UInt8} {c : Char} :
    two? a b = some c ↔ (0xC2 ≤ a.toNat ∧ a.toNat < 0xE0 ∧ 0x80 ≤ b.toNat ∧ b.toNat < 0xC0) ∧
      Char.ofNat ((a.toNat - 0xC0) * 0x40 + tailBits b) = c := by
  unfold two?
  rw [Option.ite_none_right_eq_some, Option.some.injEq]
  refine and_congr_left ?_
  intro _
  simp only [Bool.and_eq_true, decide_eq_true_eq, isTail_iff, UInt8.le_iff_toNat_le,
    UInt8.lt_iff_toNat_lt, UInt8.reduceToNat, and_assoc]

/-- Three octets are a character by the bits of all. -/
lemma three?_eq_some_iff {a b d : UInt8} {c : Char} :
    three? a b d = some c ↔ (opensThree a b = true ∧ 0x80 ≤ d.toNat ∧ d.toNat < 0xC0) ∧
      Char.ofNat ((a.toNat - 0xE0) * 0x1000 + tailBits b * 0x40 + tailBits d) = c := by
  unfold three?
  rw [Option.ite_none_right_eq_some, Option.some.injEq, Bool.and_eq_true, isTail_iff]

lemma four?_eq_some_iff {a b d e : UInt8} {c : Char} :
    four? a b d e = some c ↔
      ((opensFour a b = true ∧ 0x80 ≤ d.toNat ∧ d.toNat < 0xC0) ∧
        0x80 ≤ e.toNat ∧ e.toNat < 0xC0) ∧
      Char.ofNat ((a.toNat - 0xF0) * 0x40000 + tailBits b * 0x1000 + tailBits d * 0x40 +
        tailBits e) = c := by
  unfold four?
  rw [Option.ite_none_right_eq_some, Option.some.injEq, Bool.and_eq_true, Bool.and_eq_true,
    isTail_iff, isTail_iff]

lemma scan_cons (p : Pending) (a : UInt8) (rest : Bytes) :
    scan p (a :: rest) = (step p a).1 ++ scan (step p a).2 rest := rfl

/-- The scan takes the two octets of a character and goes on behind them. -/
lemma scan_two {a b : UInt8} {c : Char} (h : two? a b = some c) (rest : Bytes) :
    scan .empty (a :: b :: rest) = some c :: scan .empty rest := by
  obtain ⟨⟨h₁, h₂, -⟩, -⟩ := two?_eq_some_iff.1 h
  have hb : begin a = ([], .one a) := begin_of_le h₁ (by omega)
  simp [scan_cons, step_empty, hb, step_one_of_two? h]

/-- The scan takes the three octets of a character and goes on behind them. -/
lemma scan_three {a b d : UInt8} {c : Char} (h : three? a b d = some c) (rest : Bytes) :
    scan .empty (a :: b :: d :: rest) = some c :: scan .empty rest := by
  obtain ⟨⟨hopen, -⟩, -⟩ := three?_eq_some_iff.1 h
  obtain ⟨h₁, h₂, -⟩ := (opensThree_iff a b).1 hopen
  have ha : begin a = ([], .one a) := begin_of_le (by omega) (by omega)
  have htwo : two? a b = none := by
    refine Option.eq_none_iff_forall_ne_some.2 ?_
    intro x hx
    have := two?_eq_some_iff.1 hx
    omega
  have hb : step (.one a) b = ([], .two a b) := step_one_of_opens htwo (by rw [hopen, Bool.true_or])
  simp [scan_cons, step_empty, ha, hb, step_two_of_three? h]

/-- The scan takes the four octets of a character and goes on behind them. -/
lemma scan_four {a b d e : UInt8} {c : Char} (h : four? a b d e = some c) (rest : Bytes) :
    scan .empty (a :: b :: d :: e :: rest) = some c :: scan .empty rest := by
  obtain ⟨⟨⟨hopen, htail⟩, -⟩, -⟩ := four?_eq_some_iff.1 h
  obtain ⟨h₁, h₂, -⟩ := (opensFour_iff a b).1 hopen
  have ha : begin a = ([], .one a) := begin_of_le (by omega) h₂
  have htwo : two? a b = none := by
    refine Option.eq_none_iff_forall_ne_some.2 ?_
    intro x hx
    have := two?_eq_some_iff.1 hx
    omega
  have hthree : three? a b d = none := by
    refine Option.eq_none_iff_forall_ne_some.2 ?_
    intro x hx
    have := (opensThree_iff a b).1 (three?_eq_some_iff.1 hx).1.1
    omega
  have hb : step (.one a) b = ([], .two a b) := step_one_of_opens htwo (by rw [hopen, Bool.or_true])
  have hd : step (.two a b) d = ([], .three a b d) :=
    step_two_of_opens hthree (by rw [hopen, (isTail_iff d).2 htail, Bool.and_true])
  simp [scan_cons, step_empty, ha, hb, hd, step_three_of_four? h]

/-- A tail holds six bits. -/
lemma tailBits_ofNat {n : Nat} (h : n < 0x40) : tailBits (UInt8.ofNat (0x80 + n)) = n := by
  unfold tailBits
  rw [toNat_ofNat_of_lt (by omega)]
  omega

/-- Reading a character that was written gives the character, whatever follows it. -/
theorem scan_encodeChar (c : Char) (rest : Bytes) :
    scan .empty (encodeChar c ++ rest) = some c :: scan .empty rest := by
  have hvalid : c.toNat < 0xD800 ∨ 0xDFFF < c.toNat ∧ c.toNat < 0x110000 := c.valid
  have hc : Char.ofNat c.toNat = c := Char.ofNat_toNat c
  unfold encodeChar
  generalize c.toNat = n at hvalid hc
  -- one case for each number of octets that a character takes
  by_cases h₁ : n < 0x80
  · have hn : (UInt8.ofNat n).toNat = n := toNat_ofNat_of_lt (by omega)
    have := begin_of_lt (a := UInt8.ofNat n) (by omega)
    simp [h₁, scan_cons, step_empty, this, hn, hc]
  by_cases h₂ : n < 0x800
  · have ha : (UInt8.ofNat (0xC0 + n / 0x40)).toNat = 0xC0 + n / 0x40 :=
      toNat_ofNat_of_lt (by omega)
    have hb : (UInt8.ofNat (0x80 + n % 0x40)).toNat = 0x80 + n % 0x40 :=
      toNat_ofNat_of_lt (by omega)
    simp only [h₁, h₂, if_false, if_true]
    refine scan_two (two?_eq_some_iff.2 ⟨by omega, ?_⟩) rest
    rw [ha, tailBits_ofNat (by omega), ← hc]
    congr 1
    omega
  by_cases h₃ : n < 0x10000
  · have ha : (UInt8.ofNat (0xE0 + n / 0x1000)).toNat = 0xE0 + n / 0x1000 :=
      toNat_ofNat_of_lt (by omega)
    have hb : (UInt8.ofNat (0x80 + n / 0x40 % 0x40)).toNat = 0x80 + n / 0x40 % 0x40 :=
      toNat_ofNat_of_lt (by omega)
    have hd : (UInt8.ofNat (0x80 + n % 0x40)).toNat = 0x80 + n % 0x40 :=
      toNat_ofNat_of_lt (by omega)
    simp only [h₁, h₂, h₃, if_false, if_true]
    refine scan_three
      (three?_eq_some_iff.2 ⟨⟨(opensThree_iff _ _).2 (by omega), by omega⟩, ?_⟩) rest
    rw [ha, tailBits_ofNat (by omega), tailBits_ofNat (by omega), ← hc]
    congr 1
    omega
  · have ha : (UInt8.ofNat (0xF0 + n / 0x40000)).toNat = 0xF0 + n / 0x40000 :=
      toNat_ofNat_of_lt (by omega)
    have hb : (UInt8.ofNat (0x80 + n / 0x1000 % 0x40)).toNat = 0x80 + n / 0x1000 % 0x40 :=
      toNat_ofNat_of_lt (by omega)
    have hd : (UInt8.ofNat (0x80 + n / 0x40 % 0x40)).toNat = 0x80 + n / 0x40 % 0x40 :=
      toNat_ofNat_of_lt (by omega)
    have he : (UInt8.ofNat (0x80 + n % 0x40)).toNat = 0x80 + n % 0x40 :=
      toNat_ofNat_of_lt (by omega)
    simp only [h₁, h₂, h₃, if_false]
    refine scan_four (four?_eq_some_iff.2
      ⟨⟨⟨(opensFour_iff _ _).2 (by omega), by omega⟩, by omega⟩, ?_⟩) rest
    rw [ha, tailBits_ofNat (by omega), tailBits_ofNat (by omega), tailBits_ofNat (by omega), ← hc]
    congr 1
    omega

/-- Reading characters that were written gives the characters, whatever follows them. -/
theorem scan_encodeChars (cs : List Char) (rest : Bytes) :
    scan .empty (encodeChars cs ++ rest) = cs.map some ++ scan .empty rest := by
  induction cs with
  | nil => rfl
  | cons c cs ih => simp [scan_encodeChar, ih]

/-- The scan of a text that was written gives its characters. -/
lemma scan_encode (s : String) : scan .empty (encode s) = s.toList.map some := by
  have h := scan_encodeChars s.toList []
  rw [List.append_nil] at h
  rw [encode, h]
  simp [scan]

/-- Octets are a text if the scan finds nothing else in them. -/
lemma decode?_eq_some_iff_scan {v : Bytes} {s : String} :
    decode? v = some s ↔ scan .empty v = s.toList.map some := by
  rw [decode?, Option.map_eq_some_iff]
  constructor
  · rintro ⟨cs, hcs, rfl⟩
    simpa using mapM_eq_some_iff.1 hcs
  · intro h
    exact ⟨s.toList, mapM_eq_some_iff.2 (by simpa using h), String.ofList_toList⟩

/-- A text that was written is read back. -/
theorem decode?_encode (s : String) : decode? (encode s) = some s :=
  decode?_eq_some_iff_scan.2 (scan_encode s)

/-- Nothing of a text that was written is lost. -/
theorem decodeLossy_encode (s : String) : decodeLossy (encode s) = s := by
  rw [decodeLossy, scan_encode, List.map_map]
  have : (fun x : Option Char => x.getD replacement) ∘ some = id := rfl
  rw [this, List.map_id, String.ofList_toList]

/-! ### Only what was written is a text -/

/-- The octets of the character that has begun. -/
def Pending.octets : Pending → Bytes
  | empty => []
  | one a => [a]
  | two a b => [a, b]
  | three a b c => [a, b, c]

lemma toNat_ofNat_of_valid {n : Nat} (h : n.isValidChar) : (Char.ofNat n).toNat = n := by
  rw [Char.ofNat, dif_pos h]
  exact UInt32.toNat_ofNatLT

lemma encodeChar_of_lt {a : UInt8} (h : a.toNat < 0x80) :
    encodeChar (Char.ofNat a.toNat) = [a] := by
  have hc := toNat_ofNat_of_valid (n := a.toNat) (.inl (by omega))
  rw [encodeChar, hc, if_pos h, UInt8.ofNat_toNat]

/-- Two octets that are read as a character are what is written for it. -/
lemma encodeChar_of_two? {a b : UInt8} {c : Char} (h : two? a b = some c) :
    encodeChar c = [a, b] := by
  obtain ⟨hab, rfl⟩ := two?_eq_some_iff.1 h
  have hb : tailBits b = b.toNat - 0x80 := rfl
  have hc := toNat_ofNat_of_valid (n := (a.toNat - 0xC0) * 0x40 + tailBits b) (by omega)
  unfold encodeChar
  rw [hc]
  simp only [show ¬ (a.toNat - 0xC0) * 0x40 + tailBits b < 0x80 by omega,
    show (a.toNat - 0xC0) * 0x40 + tailBits b < 0x800 by omega, if_false, if_true]
  rw [ofNat_eq_of_toNat_eq (a := a) (by omega), ofNat_eq_of_toNat_eq (a := b) (by omega)]

lemma encodeChar_of_three? {a b d : UInt8} {c : Char} (h : three? a b d = some c) :
    encodeChar c = [a, b, d] := by
  obtain ⟨⟨hab, hd⟩, rfl⟩ := three?_eq_some_iff.1 h
  have hab := (opensThree_iff a b).1 hab
  have hb : tailBits b = b.toNat - 0x80 := rfl
  have hd' : tailBits d = d.toNat - 0x80 := rfl
  generalize hn : (a.toNat - 0xE0) * 0x1000 + tailBits b * 0x40 + tailBits d = n
  have hc := toNat_ofNat_of_valid (n := n) (by omega)
  unfold encodeChar
  rw [hc]
  simp only [show ¬ n < 0x80 by omega, show ¬ n < 0x800 by omega, show n < 0x10000 by omega,
    if_false, if_true]
  rw [ofNat_eq_of_toNat_eq (a := a) (by omega), ofNat_eq_of_toNat_eq (a := b) (by omega),
    ofNat_eq_of_toNat_eq (a := d) (by omega)]

lemma encodeChar_of_four? {a b d e : UInt8} {c : Char} (h : four? a b d e = some c) :
    encodeChar c = [a, b, d, e] := by
  obtain ⟨⟨⟨hab, hd⟩, he⟩, rfl⟩ := four?_eq_some_iff.1 h
  have hab := (opensFour_iff a b).1 hab
  have hb : tailBits b = b.toNat - 0x80 := rfl
  have hd' : tailBits d = d.toNat - 0x80 := rfl
  have he' : tailBits e = e.toNat - 0x80 := rfl
  generalize hn : (a.toNat - 0xF0) * 0x40000 + tailBits b * 0x1000 + tailBits d * 0x40 +
    tailBits e = n
  have hc := toNat_ofNat_of_valid (n := n) (by omega)
  unfold encodeChar
  rw [hc]
  simp only [show ¬ n < 0x80 by omega, show ¬ n < 0x800 by omega, show ¬ n < 0x10000 by omega,
    if_false]
  rw [ofNat_eq_of_toNat_eq (a := a) (by omega), ofNat_eq_of_toNat_eq (a := b) (by omega),
    ofNat_eq_of_toNat_eq (a := d) (by omega), ofNat_eq_of_toNat_eq (a := e) (by omega)]

/-- An octet completes the character that has begun, or goes on with it, or breaks it off. -/
lemma step_cases (p : Pending) (a : UInt8) :
    (∃ c, step p a = ([some c], .empty) ∧ encodeChar c = p.octets ++ [a]) ∨
      (∃ q, step p a = ([], q) ∧ q.octets = p.octets ++ [a]) ∨
      none ∈ (step p a).1 := by
  -- an octet completes a character, is kept for one, or shows that something was no character
  cases p with
  | empty =>
    by_cases h : a.toNat < 0x80
    · exact .inl ⟨_, begin_of_lt h, encodeChar_of_lt h⟩
    by_cases h' : 0xC2 ≤ a.toNat ∧ a.toNat < 0xF5
    · exact .inr (.inl ⟨.one a, begin_of_le h'.1 h'.2, rfl⟩)
    · refine .inr (.inr ?_)
      have h₁ : ¬ a < 0x80 := fun k => h (UInt8.lt_iff_toNat_lt.1 k)
      have h₂ : ¬ (0xC2 ≤ a && a < 0xF5) = true := by
        rw [Bool.and_eq_true, decide_eq_true_eq, decide_eq_true_eq]
        exact fun k => h' ⟨UInt8.le_iff_toNat_le.1 k.1, UInt8.lt_iff_toNat_lt.1 k.2⟩
      rw [step_empty, begin, if_neg h₁, if_neg h₂]
      exact List.mem_singleton_self _
  | one b =>
    rw [step]
    split
    · next c hc => exact .inl ⟨c, rfl, encodeChar_of_two? hc⟩
    · split
      · exact .inr (.inl ⟨.two b a, rfl, rfl⟩)
      · exact .inr (.inr List.mem_cons_self)
  | two b d =>
    rw [step]
    split
    · next c hc => exact .inl ⟨c, rfl, encodeChar_of_three? hc⟩
    · split
      · exact .inr (.inl ⟨.three b d a, rfl, rfl⟩)
      · exact .inr (.inr List.mem_cons_self)
  | three b d e =>
    rw [step]
    split
    · next c hc => exact .inl ⟨c, rfl, encodeChar_of_four? hc⟩
    · exact .inr (.inr List.mem_cons_self)

/-- Octets in which every character is whole are what writes these characters. -/
theorem encodeChars_of_scan {p : Pending} {v : Bytes} {cs : List Char}
    (h : scan p v = cs.map some) : encodeChars cs = p.octets ++ v := by
  -- the octets of `p` are those that were read of a character and not yet given
  induction v generalizing p cs with
  | nil =>
    rw [scan] at h
    split at h
    · next hp =>
      have hcs : cs = [] := by simpa using h.symm
      simp [hp, hcs, Pending.octets]
    · cases cs <;> simp at h
  | cons a rest ih =>
    rw [scan_cons] at h
    rcases step_cases p a with ⟨c, hstep, hc⟩ | ⟨q, hstep, hq⟩ | hnone
    · rw [hstep] at h
      cases cs with
      | nil => simp at h
      | cons x xs =>
        simp only [List.cons_append, List.nil_append, List.map_cons, List.cons.injEq,
          Option.some.injEq] at h
        rw [encodeChars_cons, ← h.1, hc, ih h.2]
        simp [Pending.octets]
    · rw [hstep, List.nil_append] at h
      rw [ih h, hq, List.append_assoc]
      rfl
    · have : none ∈ cs.map some := by
        rw [← h]
        exact List.mem_append_left _ hnone
      simp at this

/-- Octets are a text exactly if the text is written so. -/
theorem decode?_eq_some_iff {v : Bytes} {s : String} : decode? v = some s ↔ encode s = v := by
  constructor
  · intro h
    exact encodeChars_of_scan (decode?_eq_some_iff_scan.1 h)
  · rintro rfl
    exact decode?_encode s

/-- Texts that are written alike are the same. -/
theorem encode_injective {s t : String} (h : encode s = encode t) : s = t := by
  have := decode?_encode s
  rw [h, decode?_encode] at this
  exact (Option.some.inj this).symm

/-- A text whose octets begin as those of another text begins as that one. -/
theorem exists_append_of_encode {s t : String} {v : Bytes} (h : encode s = encode t ++ v) :
    ∃ rest, s = t ++ rest ∧ encode rest = v := by
  have hscan := scan_encode s
  rw [h, encode, scan_encodeChars] at hscan
  obtain ⟨first, rest, hs, hfirst, -⟩ := List.map_eq_append_iff.1 hscan.symm
  have ht : first = t.toList := (List.map_inj_right fun _ _ => Option.some.inj).1 hfirst
  have hparts : s = t ++ String.ofList rest := by
    rw [← String.toList_inj, hs, ht, String.toList_append, String.toList_ofList]
  refine ⟨String.ofList rest, hparts, ?_⟩
  rw [hparts, encode_append] at h
  exact List.append_cancel_left h

/-! ### ASCII octets -/

lemma encodeChar_of_ascii {c : Char} (h : c.toNat < 0x80) :
    encodeChar c = [UInt8.ofNat c.toNat] := by
  rw [encodeChar, if_pos h]

/-- No octet of another character lies in ASCII. -/
lemma le_of_mem_encodeChar {c : Char} (h : 0x80 ≤ c.toNat) {b : UInt8} (hb : b ∈ encodeChar c) :
    0x80 ≤ b.toNat := by
  have hvalid : c.toNat < 0xD800 ∨ 0xDFFF < c.toNat ∧ c.toNat < 0x110000 := c.valid
  unfold encodeChar at hb
  generalize c.toNat = n at h hvalid hb
  rw [if_neg (by omega)] at hb
  split at hb
  · simp only [List.mem_cons, List.not_mem_nil, or_false] at hb
    rcases hb with rfl | rfl <;> rw [toNat_ofNat_of_lt (by omega)] <;> omega
  split at hb
  · simp only [List.mem_cons, List.not_mem_nil, or_false] at hb
    rcases hb with rfl | rfl | rfl <;> rw [toNat_ofNat_of_lt (by omega)] <;> omega
  · simp only [List.mem_cons, List.not_mem_nil, or_false] at hb
    rcases hb with rfl | rfl | rfl | rfl <;> rw [toNat_ofNat_of_lt (by omega)] <;> omega

/-- An ASCII octet comes from its own character only. -/
lemma mem_encodeChar_iff {b : UInt8} (hb : b.toNat < 0x80) (c : Char) :
    b ∈ encodeChar c ↔ c = Char.ofNat b.toNat := by
  constructor
  · intro h
    by_cases hc : c.toNat < 0x80
    · rw [encodeChar_of_ascii hc, List.mem_singleton] at h
      rw [h, toNat_ofNat_of_lt (by omega), Char.ofNat_toNat]
    · have := le_of_mem_encodeChar (by omega) h
      omega
  · rintro rfl
    rw [encodeChar_of_lt hb]
    exact List.mem_singleton_self _

/-- An ASCII octet comes from its own character only. -/
theorem mem_encodeChars_iff {b : UInt8} (hb : b.toNat < 0x80) (cs : List Char) :
    b ∈ encodeChars cs ↔ Char.ofNat b.toNat ∈ cs := by
  simp [encodeChars, mem_encodeChar_iff hb]

/-- Joined characters are written one part behind the other. -/
lemma encodeChars_flatten (css : List (List Char)) :
    encodeChars css.flatten = (css.map encodeChars).flatten := by
  induction css with
  | nil => rfl
  | cons cs css ih =>
    rw [List.flatten_cons, encodeChars_append, ih, List.map_cons, List.flatten_cons]

/-- Every character is written as something. -/
lemma encodeChar_ne_nil (c : Char) : encodeChar c ≠ [] := by
  have hwidth : 0 < width c := by
    unfold width
    split
    · omega
    split
    · omega
    split
    · omega
    · omega
  intro h
  have hlength := length_encodeChar c
  rw [h, List.length_nil] at hlength
  omega

@[simp] lemma encodeChars_eq_nil_iff {cs : List Char} : encodeChars cs = [] ↔ cs = [] := by
  cases cs with
  | nil => simp
  | cons c cs => simp [encodeChar_ne_nil]

@[simp] lemma encode_eq_nil_iff {s : String} : encode s = [] ↔ s = "" := by
  rw [encode, encodeChars_eq_nil_iff, String.toList_eq_nil_iff]

end DirectoryExchange.Utf8

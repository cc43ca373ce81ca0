import DirectoryExchange.Proofs.Base64
import Mathlib.Algebra.Group.Nat.Defs

/-!
# One spelling in base64

What is read was written: white space apart, octets are read from the text that is written for them
and from no other (`decode?_eq_some_iff_encode`).  The texts that are read are described without the
reading (`Canonical`), by the values of their digits and by their padding, and the bits of these
values are the bits of the octets, with zeros behind them up to the end of the last digit
(`exists_canonical`).
-/

namespace DirectoryExchange.Base64

open Bytes (toNat_ofNat_of_lt)

/-- The text without its white space. -/
def withoutGaps (s : String) : String := String.ofList (s.toList.filter fun c => !isGap c)

/-- The digits of these values, and so much padding behind them. -/
def spellingChars (ns : List Nat) (padding : Nat) : List Char :=
  ns.map digit ++ List.replicate padding pad

/-- The text of the digits of these values, with so much padding behind them. -/
def spelling (ns : List Nat) (padding : Nat) : String := String.ofList (spellingChars ns padding)

/-- Values of digits and padding that make up a text in base64.  The padding fills up the last group
of four and takes two characters at most; for each of them, two bits of the last digit belong to no
octet, and these are zero. -/
structure Canonical (ns : List Nat) (padding : Nat) : Prop where
  values : ∀ n ∈ ns, n < 64
  groups : 4 ∣ ns.length + padding
  padding_le : padding ≤ 2
  unused : ∀ n ∈ ns.getLast?, n % 4 ^ padding = 0

/-- The lower bits of a number, as many as the width has room for, the highest of them first. -/
def bitsOf (width n : Nat) : List Bool := (List.range width).reverse.map n.testBit

/-! ### What is read was written -/

/-- A group that is read as one octet is what is written for it. -/
lemma encodeChars_of_decodeOne? {a b : Char} {v : Bytes} (h : decodeOne? a b = some v) :
    encodeChars v = [a, b, pad, pad] := by
  obtain ⟨m, hm, rfl, n, hn, rfl, hunused, rfl⟩ := decodeOne?_eq_some_iff.1 h
  have hoctet := toNat_ofNat_of_lt (show m * 4 + n / 16 < 256 by omega)
  have hm' : (m * 4 + n / 16) / 4 = m := by omega
  have hn' : (m * 4 + n / 16) % 4 * 16 = n := by omega
  simp only [encodeChars, hoctet, hm', hn']

/-- A group that is read as two octets is what is written for them. -/
lemma encodeChars_of_decodeTwo? {a b c : Char} {v : Bytes} (h : decodeTwo? a b c = some v) :
    encodeChars v = [a, b, c, pad] := by
  obtain ⟨m, hm, rfl, n, hn, rfl, p, hp, rfl, hunused, rfl⟩ := decodeTwo?_eq_some_iff.1 h
  have hfirst := toNat_ofNat_of_lt (show m * 4 + n / 16 < 256 by omega)
  have hsecond := toNat_ofNat_of_lt (show n % 16 * 16 + p / 4 < 256 by omega)
  have hm' : (m * 4 + n / 16) / 4 = m := by omega
  have hn' : (m * 4 + n / 16) % 4 * 16 + (n % 16 * 16 + p / 4) / 16 = n := by omega
  have hp' : (n % 16 * 16 + p / 4) % 16 * 4 = p := by omega
  simp only [encodeChars, hfirst, hsecond, hm', hn', hp']

/-- A full group is what is written for its octets, whatever is written behind them. -/
lemma encodeChars_of_decodeThree? {a b c d : Char} {v : Bytes} (h : decodeThree? a b c d = some v)
    (further : Bytes) : encodeChars (v ++ further) = a :: b :: c :: d :: encodeChars further := by
  obtain ⟨m, hm, rfl, n, hn, rfl, p, hp, rfl, q, hq, rfl, rfl⟩ := decodeThree?_eq_some_iff.1 h
  have hfirst := toNat_ofNat_of_lt (show m * 4 + n / 16 < 256 by omega)
  have hsecond := toNat_ofNat_of_lt (show n % 16 * 16 + p / 4 < 256 by omega)
  have hthird := toNat_ofNat_of_lt (show p % 4 * 64 + q < 256 by omega)
  have hm' : (m * 4 + n / 16) / 4 = m := by omega
  have hn' : (m * 4 + n / 16) % 4 * 16 + (n % 16 * 16 + p / 4) / 16 = n := by omega
  have hp' : (n % 16 * 16 + p / 4) % 16 * 4 + (p % 4 * 64 + q) / 64 = p := by omega
  have hq' : (p % 4 * 64 + q) % 64 = q := by omega
  simp only [encodeChars, List.cons_append, List.nil_append, hfirst, hsecond, hthird, hm', hn',
    hp', hq']

/-- The digits that octets are read from are those that are written for them. -/
theorem encodeChars_of_decodeChars? {cs : List Char} {v : Bytes} (h : decodeChars? cs = some v) :
    encodeChars v = cs := by
  induction cs using decodeChars?.induct generalizing v with
  | case1 =>
    obtain rfl := Option.some.inj h
    rfl
  | case2 a b d rest hlast =>
    obtain ⟨rfl, rfl⟩ := hlast
    rw [decodeChars?, if_pos ⟨rfl, rfl⟩, if_pos rfl] at h
    exact encodeChars_of_decodeOne? h
  | case3 a b c d rest hlast hc =>
    obtain ⟨rfl, rfl⟩ := hlast
    rw [decodeChars?, if_pos ⟨rfl, rfl⟩, if_neg hc] at h
    exact encodeChars_of_decodeTwo? h
  | case4 a b c d rest hfull ih =>
    rw [decodeChars?, if_neg hfull] at h
    obtain ⟨group, hgroup, h⟩ := Option.bind_eq_some_iff.1 h
    obtain ⟨further, hfurther, h⟩ := Option.bind_eq_some_iff.1 h
    obtain rfl := Option.some.inj h
    rw [encodeChars_of_decodeThree? hgroup, ih hfurther]
  | case5 cs hnil hgroup =>
    rw [decodeChars?.eq_3 cs hnil hgroup] at h
    cases h

/-- Characters without gaps are read as octets exactly if they are what is written for them. -/
theorem decodeChars?_eq_some_iff {cs : List Char} {v : Bytes} :
    decodeChars? cs = some v ↔ cs = encodeChars v := by
  constructor
  · intro h
    exact (encodeChars_of_decodeChars? h).symm
  · rintro rfl
    exact decodeChars?_encodeChars v

/-! ### White space -/

/-- To read a text is to read what is left of it without the gaps. -/
lemma decode?_eq (s : String) : decode? s = decodeChars? (withoutGaps s).toList := by
  rw [decode?, withoutGaps, String.toList_ofList]

/-- Without its white space, a text that is read is the one that is written. -/
theorem decode?_eq_some_iff_encode {s : String} {v : Bytes} :
    decode? s = some v ↔ withoutGaps s = encode v := by
  rw [decode?_eq, decodeChars?_eq_some_iff, encode, ← String.toList_inj, String.toList_ofList]

lemma withoutGaps_append (s t : String) :
    withoutGaps (s ++ t) = withoutGaps s ++ withoutGaps t := by
  rw [withoutGaps, String.toList_append, List.filter_append, String.ofList_append, withoutGaps,
    withoutGaps]

/-- Of nothing but gaps nothing is left. -/
lemma withoutGaps_eq_empty {w : String} (h : ∀ c ∈ w.toList, isGap c = true) :
    withoutGaps w = "" := by
  have hnone : (w.toList.filter fun c => !isGap c) = [] :=
    List.filter_eq_nil_iff.2 fun c hc => by simp [h c hc]
  rw [withoutGaps, hnone]

/-! ### Bits -/

/-- The bits of a number are those of its higher and those of its lower part. -/
lemma bitsOf_add (high low n : Nat) :
    bitsOf (high + low) n = bitsOf high (n / 2 ^ low) ++ bitsOf low (n % 2 ^ low) := by
  have hlow : (List.range low).map (n % 2 ^ low).testBit = (List.range low).map n.testBit :=
    List.map_congr_left fun i hi => by
      rw [Nat.testBit_mod_two_pow, decide_eq_true (List.mem_range.1 hi), Bool.true_and]
  have hhigh : (n / 2 ^ low).testBit = fun i => n.testBit (low + i) :=
    funext fun i => by rw [Nat.testBit_div_two_pow, Nat.add_comm]
  rw [bitsOf, bitsOf, bitsOf, List.map_reverse, List.map_reverse, List.map_reverse, hlow, hhigh,
    ← List.reverse_append, Nat.add_comm, List.range_add, List.map_append, List.map_map]
  rfl

/-- A number put together from two parts has the bits of the high one, then those of the low one. -/
lemma bitsOf_mul_add {high low m n : Nat} (hn : n < 2 ^ low) :
    bitsOf (high + low) (m * 2 ^ low + n) = bitsOf high m ++ bitsOf low n := by
  have hhigh : (m * 2 ^ low + n) / 2 ^ low = m := by
    rw [Nat.mul_comm, Nat.mul_add_div (Nat.two_pow_pos low), Nat.div_eq_of_lt hn, Nat.add_zero]
  have hlow : (m * 2 ^ low + n) % 2 ^ low = n := by
    rw [Nat.mul_comm, Nat.mul_add_mod, Nat.mod_eq_of_lt hn]
  rw [bitsOf_add, hhigh, hlow]

lemma bitsOf_zero (width : Nat) : bitsOf width 0 = List.replicate width false := by
  rw [bitsOf, List.map_reverse, funext Nat.zero_testBit, List.map_const', List.length_range,
    List.reverse_replicate]

/-- A number that is shifted has zeros behind its bits. -/
lemma bitsOf_mul (high low m : Nat) :
    bitsOf (high + low) (m * 2 ^ low) = bitsOf high m ++ List.replicate low false := by
  rw [← bitsOf_zero low, ← bitsOf_mul_add (Nat.two_pow_pos low), Nat.add_zero]

/-- Two digits hold the bits of one octet and four more. -/
lemma flatMap_bitsOf_one (x : Nat) :
    [x / 4, x % 4 * 16].flatMap (bitsOf 6) = bitsOf 8 x ++ List.replicate 4 false := by
  have hx : bitsOf 8 x = bitsOf 6 (x / 4) ++ bitsOf 2 (x % 4) := bitsOf_add 6 2 x
  have hlast : bitsOf 6 (x % 4 * 16) = bitsOf 2 (x % 4) ++ List.replicate 4 false :=
    bitsOf_mul 2 4 (x % 4)
  simp only [List.flatMap_cons, List.flatMap_nil, List.append_nil, List.append_assoc, hx, hlast]

/-- Three digits hold the bits of two octets and two more. -/
lemma flatMap_bitsOf_two (x : Nat) {y : Nat} (hy : y < 256) :
    [x / 4, x % 4 * 16 + y / 16, y % 16 * 4].flatMap (bitsOf 6) =
      bitsOf 8 x ++ (bitsOf 8 y ++ List.replicate 2 false) := by
  have hx : bitsOf 8 x = bitsOf 6 (x / 4) ++ bitsOf 2 (x % 4) := bitsOf_add 6 2 x
  have hy' : bitsOf 8 y = bitsOf 4 (y / 16) ++ bitsOf 4 (y % 16) := bitsOf_add 4 4 y
  have hxy : bitsOf 6 (x % 4 * 16 + y / 16) = bitsOf 2 (x % 4) ++ bitsOf 4 (y / 16) :=
    @bitsOf_mul_add 2 4 _ _ (by omega)
  have hlast : bitsOf 6 (y % 16 * 4) = bitsOf 4 (y % 16) ++ List.replicate 2 false :=
    bitsOf_mul 4 2 (y % 16)
  simp only [List.flatMap_cons, List.flatMap_nil, List.append_nil, List.append_assoc, hx, hy', hxy,
    hlast]

/-- Four digits hold the bits of three octets. -/
lemma flatMap_bitsOf_three (x : Nat) {y z : Nat} (hy : y < 256) (hz : z < 256) :
    [x / 4, x % 4 * 16 + y / 16, y % 16 * 4 + z / 64, z % 64].flatMap (bitsOf 6) =
      bitsOf 8 x ++ (bitsOf 8 y ++ bitsOf 8 z) := by
  have hx : bitsOf 8 x = bitsOf 6 (x / 4) ++ bitsOf 2 (x % 4) := bitsOf_add 6 2 x
  have hy' : bitsOf 8 y = bitsOf 4 (y / 16) ++ bitsOf 4 (y % 16) := bitsOf_add 4 4 y
  have hz' : bitsOf 8 z = bitsOf 2 (z / 64) ++ bitsOf 6 (z % 64) := bitsOf_add 2 6 z
  have hxy : bitsOf 6 (x % 4 * 16 + y / 16) = bitsOf 2 (x % 4) ++ bitsOf 4 (y / 16) :=
    @bitsOf_mul_add 2 4 _ _ (by omega)
  have hyz : bitsOf 6 (y % 16 * 4 + z / 64) = bitsOf 4 (y % 16) ++ bitsOf 2 (z / 64) :=
    @bitsOf_mul_add 4 2 _ _ (by omega)
  simp only [List.flatMap_cons, List.flatMap_nil, List.append_nil, List.append_assoc, hx, hy', hz',
    hxy, hyz]

/-! ### The texts that are read -/

/-- A text without digits has no padding. -/
lemma canonical_nil_iff {padding : Nat} : Canonical [] padding ↔ padding = 0 := by
  constructor
  · intro h
    have hgroups := h.groups
    have hle := h.padding_le
    rw [List.length_nil] at hgroups
    omega
  · rintro rfl
    exact ⟨nofun, ⟨0, rfl⟩, Nat.zero_le 2, nofun⟩

/-- A single digit does not hold an octet. -/
lemma not_canonical_singleton (m padding : Nat) : ¬ Canonical [m] padding := by
  intro h
  have hgroups := h.groups
  have hle := h.padding_le
  rw [List.length_singleton] at hgroups
  omega

/-- Two digits hold one octet, with four bits over that have to be zero. -/
lemma canonical_pair_iff {m n padding : Nat} :
    Canonical [m, n] padding ↔ padding = 2 ∧ m < 64 ∧ n < 64 ∧ n % 16 = 0 := by
  constructor
  · intro h
    have hgroups := h.groups
    have hle := h.padding_le
    simp only [List.length_cons, List.length_nil] at hgroups
    obtain rfl : padding = 2 := by omega
    exact ⟨rfl, h.values m (by simp), h.values n (by simp), h.unused n rfl⟩
  · rintro ⟨rfl, hm, hn, hunused⟩
    refine ⟨by simp [hm, hn], ⟨1, rfl⟩, Nat.le_refl 2, fun x hx => ?_⟩
    obtain rfl : n = x := Option.some.inj hx
    exact hunused

/-- Three digits hold two octets, with two bits over that have to be zero. -/
lemma canonical_triple_iff {m n p padding : Nat} :
    Canonical [m, n, p] padding ↔ padding = 1 ∧ m < 64 ∧ n < 64 ∧ p < 64 ∧ p % 4 = 0 := by
  constructor
  · intro h
    have hgroups := h.groups
    have hle := h.padding_le
    simp only [List.length_cons, List.length_nil] at hgroups
    obtain rfl : padding = 1 := by omega
    exact ⟨rfl, h.values m (by simp), h.values n (by simp), h.values p (by simp), h.unused p rfl⟩
  · rintro ⟨rfl, hm, hn, hp, hunused⟩
    refine ⟨by simp [hm, hn, hp], ⟨1, rfl⟩, Nat.le_succ 1, fun x hx => ?_⟩
    obtain rfl : p = x := Option.some.inj hx
    exact hunused

/-- Behind a full group there is another such text. -/
lemma canonical_group_iff {m n p q padding : Nat} {ns : List Nat} :
    Canonical (m :: n :: p :: q :: ns) padding ↔
      m < 64 ∧ n < 64 ∧ p < 64 ∧ q < 64 ∧ Canonical ns padding := by
  have happend : m :: n :: p :: q :: ns = [m, n, p, q] ++ ns := rfl
  constructor
  · intro h
    refine ⟨h.values m (by simp), h.values n (by simp), h.values p (by simp), h.values q (by simp),
      fun x hx => h.values x (List.mem_append_right [m, n, p, q] hx), ?_, h.padding_le, ?_⟩
    · have hgroups := h.groups
      simp only [List.length_cons] at hgroups
      omega
    · intro x hx
      refine h.unused x ?_
      rw [happend, List.getLast?_append, hx]
      rfl
  · rintro ⟨hm, hn, hp, hq, h⟩
    refine ⟨by simpa [hm, hn, hp, hq] using h.values, ?_, h.padding_le, ?_⟩
    · have hgroups := h.groups
      simp only [List.length_cons]
      omega
    · intro x hx
      rw [happend, List.getLast?_append] at hx
      cases hns : ns.getLast? with
      | some y =>
        rw [hns] at hx
        exact h.unused x (hns.trans hx)
      | none =>
        -- there is no padding behind a full group that is the last one
        rw [List.getLast?_eq_none_iff.1 hns, canonical_nil_iff] at h
        rw [h, Nat.pow_zero, Nat.mod_one]

/-- What is written is of this form, and its digits hold the bits of the octets. -/
theorem exists_canonical (v : Bytes) :
    ∃ ns padding, Canonical ns padding ∧ encodeChars v = spellingChars ns padding ∧
      ns.flatMap (bitsOf 6) =
        v.flatMap (fun b => bitsOf 8 b.toNat) ++ List.replicate (2 * padding) false := by
  -- a rest of one or two octets leaves bits of the last digit that are zero
  induction v using encodeChars.induct with
  | case1 => exact ⟨[], 0, canonical_nil_iff.2 rfl, rfl, rfl⟩
  | case2 a =>
    have ha := a.toNat_lt
    have hns : Canonical [a.toNat / 4, a.toNat % 4 * 16] 2 :=
      canonical_pair_iff.2 ⟨rfl, by omega, by omega, by omega⟩
    refine ⟨_, _, hns, rfl, ?_⟩
    rw [flatMap_bitsOf_one, List.flatMap_singleton]
  | case3 a b =>
    have ha := a.toNat_lt
    have hb := b.toNat_lt
    have hns : Canonical
        [a.toNat / 4, a.toNat % 4 * 16 + b.toNat / 16, b.toNat % 16 * 4] 1 :=
      canonical_triple_iff.2 ⟨rfl, by omega, by omega, by omega, by omega⟩
    refine ⟨_, _, hns, rfl, ?_⟩
    rw [flatMap_bitsOf_two _ hb, List.flatMap_cons, List.flatMap_singleton, List.append_assoc]
  | case4 a b c rest ih =>
    have ha := a.toNat_lt
    have hb := b.toNat_lt
    have hc := c.toNat_lt
    obtain ⟨ns, padding, hns, hchars, hbits⟩ := ih
    have hgroup := flatMap_bitsOf_three a.toNat hb hc
    refine ⟨[a.toNat / 4, a.toNat % 4 * 16 + b.toNat / 16, b.toNat % 16 * 4 + c.toNat / 64,
      c.toNat % 64] ++ ns, padding,
      canonical_group_iff.2 ⟨by omega, by omega, by omega, by omega, hns⟩, ?_, ?_⟩
    · rw [encodeChars, hchars]
      rfl
    · rw [List.flatMap_append, hgroup, hbits]
      simp only [List.flatMap_cons, List.append_assoc]

/-- Every text of this form is read.  The recursion takes the values as the reading takes the
digits, four at a time. -/
theorem Canonical.exists_decodeChars? : ∀ {ns : List Nat} {padding : Nat}, Canonical ns padding →
    ∃ v, decodeChars? (spellingChars ns padding) = some v
  | [], padding, h => by
    obtain rfl := canonical_nil_iff.1 h
    exact ⟨[], rfl⟩
  | [m], padding, h => absurd h (not_canonical_singleton m padding)
  | [m, n], padding, h => by
    obtain ⟨rfl, hm, hn, hunused⟩ := canonical_pair_iff.1 h
    have hchars : spellingChars [m, n] 2 = [digit m, digit n, pad, pad] := rfl
    rw [hchars, decodeChars?, if_pos ⟨rfl, rfl⟩, if_pos rfl]
    exact ⟨_, decodeOne?_eq_some_iff.2 ⟨m, hm, rfl, n, hn, rfl, hunused, rfl⟩⟩
  | [m, n, p], padding, h => by
    obtain ⟨rfl, hm, hn, hp, hunused⟩ := canonical_triple_iff.1 h
    have hchars : spellingChars [m, n, p] 1 = [digit m, digit n, digit p, pad] := rfl
    rw [hchars, decodeChars?, if_pos ⟨rfl, rfl⟩, if_neg (digit_ne_pad hp)]
    exact ⟨_, decodeTwo?_eq_some_iff.2 ⟨m, hm, rfl, n, hn, rfl, p, hp, rfl, hunused, rfl⟩⟩
  | m :: n :: p :: q :: ns, padding, h => by
    obtain ⟨hm, hn, hp, hq, hns⟩ := canonical_group_iff.1 h
    obtain ⟨further, hfurther⟩ := hns.exists_decodeChars?
    have hchars : spellingChars (m :: n :: p :: q :: ns) padding =
        digit m :: digit n :: digit p :: digit q :: spellingChars ns padding := rfl
    have hgroup := decodeThree?_eq_some_iff.2
      ⟨m, hm, rfl, n, hn, rfl, p, hp, rfl, q, hq, rfl, rfl⟩
    rw [hchars, decodeChars?, if_neg fun hlast => digit_ne_pad hq hlast.1, hgroup, hfurther]
    exact ⟨_, rfl⟩

/-- A text is refused exactly if, white space apart, it is not of this form. -/
theorem decode?_eq_none_iff {s : String} :
    decode? s = none ↔
      ¬ ∃ ns padding, Canonical ns padding ∧ withoutGaps s = spelling ns padding := by
  constructor
  · rintro hnone ⟨ns, padding, hns, hs⟩
    obtain ⟨v, hv⟩ := hns.exists_decodeChars?
    rw [decode?_eq, hs, spelling, String.toList_ofList, hv] at hnone
    cases hnone
  · intro hform
    refine Option.eq_none_iff_forall_not_mem.2 fun v hv => hform ?_
    obtain ⟨ns, padding, hns, hchars, -⟩ := exists_canonical v
    refine ⟨ns, padding, hns, ?_⟩
    rw [decode?_eq_some_iff_encode.1 hv, encode, hchars, spelling]

/-- Octets are read exactly from the text that is written for them, with white space anywhere in it.
So all octets survive, and have one spelling only.  The text is made of full groups of digits and
padding, the digits hold the bits of the octets, and texts of any other form are refused. -/
theorem decode?_inverts_encode :
    (∀ s v, decode? s = some v ↔ withoutGaps s = encode v) ∧
    (∀ v, decode? (encode v) = some v) ∧
    (∀ s gap t, (∀ c ∈ gap.toList, isGap c = true) → decode? (s ++ gap ++ t) = decode? (s ++ t)) ∧
    (∀ s t v, decode? s = some v → decode? t = some v → withoutGaps s = withoutGaps t) ∧
    (∀ v : Bytes, ∃ ns padding, Canonical ns padding ∧ encode v = spelling ns padding ∧
      ns.flatMap (bitsOf 6) =
        v.flatMap (fun b => bitsOf 8 b.toNat) ++ List.replicate (2 * padding) false) ∧
    (∀ s, decode? s = none ↔
      ¬ ∃ ns padding, Canonical ns padding ∧ withoutGaps s = spelling ns padding) := by
  refine ⟨fun s v => decode?_eq_some_iff_encode, decode?_encode, ?_, ?_, ?_,
    fun s => decode?_eq_none_iff⟩
  · intro s gap t hgap
    rw [decode?_eq, decode?_eq, withoutGaps_append, withoutGaps_append, withoutGaps_append,
      withoutGaps_eq_empty hgap, String.append_empty]
  · intro s t v hs ht
    rw [decode?_eq_some_iff_encode.1 hs, decode?_eq_some_iff_encode.1 ht]
  · intro v
    obtain ⟨ns, padding, hns, hchars, hbits⟩ := exists_canonical v
    exact ⟨ns, padding, hns, by rw [encode, hchars, spelling], hbits⟩

/-- A text may be broken and the rest of it indented. -/
theorem decode?_inverts_encode_brokenText :
    let people : Bytes := [0x20, 0x50, 0x65, 0x6F, 0x70, 0x6C, 0x65]
    (∀ c ∈ "\n ".toList, isGap c = true) ∧ decode? "IFBl\n b3BsZQ==" = some people ∧
      decode? "IFBlb3BsZQ==" = some people ∧
      withoutGaps "IFBl\n b3BsZQ==" = withoutGaps "IFBlb3BsZQ==" := by
  intro people
  obtain ⟨hread, -, hgaps, hunique, -, -⟩ := decode?_inverts_encode
  have hgap : ∀ c ∈ "\n ".toList, isGap c = true :=
    List.all_eq_true.1 (by decide +kernel)
  have hwhole : decode? "IFBlb3BsZQ==" = some people := (hread _ _).2 (by decide +kernel)
  have hbroken : decode? "IFBl\n b3BsZQ==" = some people :=
    (hgaps "IFBl" "\n " "b3BsZQ==" hgap).trans hwhole
  exact ⟨hgap, hbroken, hwhole, hunique _ _ _ hbroken hwhole⟩

/-- Padding that is missing or misplaced, a bit left over and a character of another alphabet are
refused. -/
example : decode? "IFBlb3BsZQ" = none ∧ decode? "IF==b3BsZQ==" = none ∧
    decode? "IFBlb3BsZR==" = none ∧ decode? "IFBlb3Bs_Q==" = none := by
  decide +kernel

end DirectoryExchange.Base64

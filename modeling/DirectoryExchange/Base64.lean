import DirectoryExchange.Bytes

/-!
# Base64

Octets that cannot stand as text are written in base64 with padding.  Reading passes over ASCII
white space, wherever a text may have been broken, and accepts no second spelling: the padding has
to be there, and the bits of a digit that no octet takes up have to be zero.
-/

namespace DirectoryExchange.Base64

/-- The digits in order of their value. -/
def alphabet : List Char :=
  "ABCDEFGHIJKLMNOPQRSTUVWXYZabcdefghijklmnopqrstuvwxyz0123456789+/".toList

/-- What fills up the last group. -/
def pad : Char := '='

/-- The digit of a value below 64. -/
def digit (n : Nat) : Char := alphabet.getD n pad

/-- The value of a digit. -/
def value? (c : Char) : Option Nat :=
  let n := c.toNat
  if 0x41 ≤ n ∧ n ≤ 0x5A then some (n - 0x41)
  else if 0x61 ≤ n ∧ n ≤ 0x7A then some (n - 0x61 + 26)
  else if 0x30 ≤ n ∧ n ≤ 0x39 then some (n - 0x30 + 52)
  else if c = '+' then some 62
  else if c = '/' then some 63
  else none

/-- The digits of the octets, in groups of four for three octets. -/
def encodeChars : Bytes → List Char
  | [] => []
  | [a] =>
    let a := a.toNat
    [digit (a / 4), digit (a % 4 * 16), pad, pad]
  | [a, b] =>
    let a := a.toNat
    let b := b.toNat
    [digit (a / 4), digit (a % 4 * 16 + b / 16), digit (b % 16 * 4), pad]
  | a :: b :: c :: rest =>
    let a := a.toNat
    let b := b.toNat
    let c := c.toNat
    digit (a / 4) :: digit (a % 4 * 16 + b / 16) :: digit (b % 16 * 4 + c / 64) ::
      digit (c % 64) :: encodeChars rest

/-- The octets in base64. -/
def encode (v : Bytes) : String := String.ofList (encodeChars v)

/-- White space of ASCII, which may stand anywhere between the digits. -/
def isGap (c : Char) : Bool :=
  c == ' ' || c == '\t' || c == '\n' || c == '\x0c' || c == '\r'

/-- The octet of a last group with two digits; the lower bits of the second are zero. -/
def decodeOne? (a b : Char) : Option Bytes := do
  let a ← value? a
  let b ← value? b
  guard (b % 16 = 0)
  return [UInt8.ofNat (a * 4 + b / 16)]

/-- The octets of a last group with three digits; the lower bits of the third are zero. -/
def decodeTwo? (a b c : Char) : Option Bytes := do
  let a ← value? a
  let b ← value? b
  let c ← value? c
  guard (c % 4 = 0)
  return [UInt8.ofNat (a * 4 + b / 16), UInt8.ofNat (b % 16 * 16 + c / 4)]

/-- The octets of a full group. -/
def decodeThree? (a b c d : Char) : Option Bytes := do
  let a ← value? a
  let b ← value? b
  let c ← value? c
  let d ← value? d
  return [UInt8.ofNat (a * 4 + b / 16), UInt8.ofNat (b % 16 * 16 + c / 4),
    UInt8.ofNat (c % 4 * 64 + d)]

/-- The octets of digits without gaps.  Only the last group may be padded. -/
def decodeChars? : List Char → Option Bytes
  | [] => some []
  | a :: b :: c :: d :: rest =>
    if d = pad ∧ rest = [] then
      if c = pad then decodeOne? a b else decodeTwo? a b c
    else do
      let group ← decodeThree? a b c d
      let further ← decodeChars? rest
      return group ++ further
  | _ => none

/-- The octets that the text gives in base64. -/
def decode? (s : String) : Option Bytes :=
  decodeChars? (s.toList.filter fun c => !isGap c)

end DirectoryExchange.Base64

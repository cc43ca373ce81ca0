/-!
# Hexadecimal digits

Characters and octets are given by their numbers in hexadecimal, with letters in either case.
-/

namespace DirectoryExchange.Hex

/-- The value of a digit. -/
def value? (c : Char) : Option Nat :=
  let n := c.toNat
  if 0x30 ≤ n ∧ n ≤ 0x39 then some (n - 0x30)
  else if 0x61 ≤ n ∧ n ≤ 0x66 then some (n - 0x61 + 10)
  else if 0x41 ≤ n ∧ n ≤ 0x46 then some (n - 0x41 + 10)
  else none

/-- The octet of two digits. -/
def octet? (high low : Char) : Option UInt8 := do
  let high ← value? high
  let low ← value? low
  return UInt8.ofNat (high * 16 + low)

/-- The two digits of an octet, with small letters. -/
def digits (b : UInt8) : List Char := [Nat.digitChar (b.toNat / 16), Nat.digitChar (b.toNat % 16)]

end DirectoryExchange.Hex

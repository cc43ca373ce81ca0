import DirectoryExchange.Bytes

/-!
# UTF-8

Texts reach the two formats as UTF-8.  `Utf8.encode` writes a text as octets and `Utf8.decode?`
reads octets that are well-formed UTF-8 throughout.  `Utf8.decodeLossy` reads any octets and puts
U+FFFD for every longest run that begins like a character and is none.  `Utf8.takeWithin` cuts a
text to a given number of octets without splitting a character.
-/

namespace DirectoryExchange.Utf8

/-- The octets of one character. -/
def encodeChar (c : Char) : Bytes :=
  let n := c.toNat
  if n < 0x80 then
    [UInt8.ofNat n]
  else if n < 0x800 then
    [UInt8.ofNat (0xC0 + n / 0x40), UInt8.ofNat (0x80 + n % 0x40)]
  else if n < 0x10000 then
    [UInt8.ofNat (0xE0 + n / 0x1000), UInt8.ofNat (0x80 + n / 0x40 % 0x40),
      UInt8.ofNat (0x80 + n % 0x40)]
  else
    [UInt8.ofNat (0xF0 + n / 0x40000), UInt8.ofNat (0x80 + n / 0x1000 % 0x40),
      UInt8.ofNat (0x80 + n / 0x40 % 0x40), UInt8.ofNat (0x80 + n % 0x40)]

/-- The octets of a list of characters. -/
def encodeChars (cs : List Char) : Bytes := cs.flatMap encodeChar

/-- The octets of a text. -/
def encode (s : String) : Bytes := encodeChars s.toList

/-- Whether the octet can only go on a character. -/
def isTail (b : UInt8) : Bool := 0x80 ≤ b && b < 0xC0

/-- The six bits that an octet contributes to the character it goes on. -/
def tailBits (b : UInt8) : Nat := b.toNat - 0x80

/-- Whether `b` may follow `a` in a character of three octets: no shorter form would do, and the
character is no surrogate. -/
def opensThree (a b : UInt8) : Bool :=
  0xE0 ≤ a && a < 0xF0 && isTail b && (a != 0xE0 || 0xA0 ≤ b) && (a != 0xED || b < 0xA0)

/-- Whether `b` may follow `a` in a character of four octets: no shorter form would do, and the
character is not beyond U+10FFFF. -/
def opensFour (a b : UInt8) : Bool :=
  0xF0 ≤ a && a < 0xF5 && isTail b && (a != 0xF0 || 0x90 ≤ b) && (a != 0xF4 || b < 0x90)

/-- The character of two octets, if they are one. -/
def two? (a b : UInt8) : Option Char :=
  if 0xC2 ≤ a && a < 0xE0 && isTail b then
    some (Char.ofNat ((a.toNat - 0xC0) * 0x40 + tailBits b))
  else
    none

/-- The character of three octets, if they are one. -/
def three? (a b c : UInt8) : Option Char :=
  if opensThree a b && isTail c then
    some (Char.ofNat ((a.toNat - 0xE0) * 0x1000 + tailBits b * 0x40 + tailBits c))
  else
    none

/-- The character of four octets, if they are one. -/
def four? (a b c d : UInt8) : Option Char :=
  if opensFour a b && isTail c && isTail d then
    some (Char.ofNat
      ((a.toNat - 0xF0) * 0x40000 + tailBits b * 0x1000 + tailBits c * 0x40 + tailBits d))
  else
    none

/-- The octets of a character that has begun and not ended. -/
inductive Pending where
  | empty
  | one (a : UInt8)
  | two (a b : UInt8)
  | three (a b c : UInt8)
  deriving DecidableEq

/-- Takes up an octet where a character may begin. -/
def begin (a : UInt8) : List (Option Char) × Pending :=
  if a < 0x80 then ([some (Char.ofNat a.toNat)], .empty)
  else if 0xC2 ≤ a && a < 0xF5 then ([], .one a)
  else ([none], .empty)

/-- Gives up the character that has begun, and takes up the octet that does not go on with it. -/
def breakOff (a : UInt8) : List (Option Char) × Pending :=
  (none :: (begin a).1, (begin a).2)

/-- Takes up one octet: the characters now known, `none` standing for octets that are none, and
what has begun. -/
def step : Pending → UInt8 → List (Option Char) × Pending
  | .empty, a => begin a
  | .one a, b =>
    match two? a b with
    | some x => ([some x], .empty)
    | none => if opensThree a b || opensFour a b then ([], .two a b) else breakOff b
  | .two a b, c =>
    match three? a b c with
    | some x => ([some x], .empty)
    | none => if opensFour a b && isTail c then ([], .three a b c) else breakOff c
  | .three a b c, d =>
    match four? a b c d with
    | some x => ([some x], .empty)
    | none => breakOff d

theorem step_empty (a : UInt8) : step .empty a = begin a := rfl

theorem step_one_of_two? {a b : UInt8} {x : Char} (h : two? a b = some x) :
    step (.one a) b = ([some x], .empty) := by
  simp only [step, h]

theorem step_one_of_opens {a b : UInt8} (h : two? a b = none)
    (hopen : (opensThree a b || opensFour a b) = true) : step (.one a) b = ([], .two a b) := by
  simp only [step, h, hopen, if_true]

theorem step_two_of_three? {a b c : UInt8} {x : Char} (h : three? a b c = some x) :
    step (.two a b) c = ([some x], .empty) := by
  simp only [step, h]

theorem step_two_of_opens {a b c : UInt8} (h : three? a b c = none)
    (hopen : (opensFour a b && isTail c) = true) : step (.two a b) c = ([], .three a b c) := by
  simp only [step, h, hopen, if_true]

theorem step_three_of_four? {a b c d : UInt8} {x : Char} (h : four? a b c d = some x) :
    step (.three a b c) d = ([some x], .empty) := by
  simp only [step, h]

/-- The characters of any octets, in order.  Octets that begin a character without completing it
give one `none` together; any other stray octet gives one of its own. -/
def scan (pending : Pending) : Bytes → List (Option Char)
  | [] => if pending = .empty then [] else [none]
  | a :: rest => (step pending a).1 ++ scan (step pending a).2 rest

/-- The text of octets that are UTF-8 throughout. -/
def decode? (v : Bytes) : Option String :=
  ((scan .empty v).mapM id).map String.ofList

/-- Whether the octets are UTF-8 throughout. -/
def isValid (v : Bytes) : Bool := (decode? v).isSome

/-- What stands for octets that are no character. -/
def replacement : Char := Char.ofNat 0xFFFD

/-- The text of any octets, U+FFFD standing for what is no character. -/
def decodeLossy (v : Bytes) : String :=
  String.ofList ((scan .empty v).map (·.getD replacement))

/-- The number of octets of one character. -/
def width (c : Char) : Nat :=
  if c.toNat < 0x80 then 1 else if c.toNat < 0x800 then 2 else if c.toNat < 0x10000 then 3 else 4

/-- The longest beginning of the characters that has at most `limit` octets. -/
def takeCharsWithin (limit : Nat) : List Char → List Char
  | [] => []
  | c :: rest => if width c ≤ limit then c :: takeCharsWithin (limit - width c) rest else []

/-- The longest beginning of the text that has at most `limit` octets. -/
def takeWithin (limit : Nat) (s : String) : String :=
  String.ofList (takeCharsWithin limit s.toList)

/-- The width of a character is the number of its octets. -/
@[simp] theorem length_encodeChar (c : Char) : (encodeChar c).length = width c := by
  unfold encodeChar width
  by_cases h₁ : c.toNat < 0x80
  · simp [h₁]
  by_cases h₂ : c.toNat < 0x800
  · simp [h₁, h₂]
  by_cases h₃ : c.toNat < 0x10000 <;> simp [h₁, h₂, h₃]

@[simp] theorem encodeChars_nil : encodeChars [] = [] := rfl

@[simp] theorem encodeChars_cons (c : Char) (cs : List Char) :
    encodeChars (c :: cs) = encodeChar c ++ encodeChars cs := rfl

@[simp] theorem encodeChars_append (cs ds : List Char) :
    encodeChars (cs ++ ds) = encodeChars cs ++ encodeChars ds := by
  simp [encodeChars]

theorem encode_append (s t : String) : encode (s ++ t) = encode s ++ encode t := by
  simp [encode]

end DirectoryExchange.Utf8

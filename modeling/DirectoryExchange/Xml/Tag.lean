import DirectoryExchange.Xml.Escape
import DirectoryExchange.Xml.Markup

/-!
# Tags

What stands between the brackets of a tag is a name and attributes.  Names may have a part in front
of a colon that stands for a namespace; the elements around a tag, and the tag itself, say for
which.
-/

namespace DirectoryExchange.Xml

/-- The name at the beginning of a tag and what follows it. -/
def splitName (content : Bytes) : Bytes × Bytes :=
  (content.takeWhile fun b => !isGap b, content.dropWhile fun b => !isGap b)

/-- Where among the attributes of a tag the next octet stands.  Octets read so far are kept last
one first. -/
inductive AttributePosition where
  /-- Between attributes. -/
  | between
  /-- In a key, which has at least one octet. -/
  | key (sofar : Bytes)
  /-- Behind a key, in front of the equals sign. -/
  | behindKey (key : Bytes)
  /-- Behind the equals sign, in front of the value. -/
  | behindEquals (key : Bytes)
  /-- In a value between these quotation marks. -/
  | value (key : Bytes) (quote : UInt8) (sofar : Bytes)
  deriving DecidableEq, Repr

/-- The equals sign between key and value. -/
def equalsSign : UInt8 := 0x3D

/-- The keys and values from some position on; `none` if an attribute is not whole. -/
def attributesFrom : AttributePosition → Bytes → Option (List (Bytes × Bytes))
  | .between, [] => some []
  | _, [] => none
  | .between, b :: rest =>
    if isGap b then attributesFrom .between rest else attributesFrom (.key [b]) rest
  | .key sofar, b :: rest =>
    if b = equalsSign then attributesFrom (.behindEquals sofar.reverse) rest
    else if isGap b then attributesFrom (.behindKey sofar.reverse) rest
    else attributesFrom (.key (b :: sofar)) rest
  | .behindKey key, b :: rest =>
    if b = equalsSign then attributesFrom (.behindEquals key) rest
    else if isGap b then attributesFrom (.behindKey key) rest
    else none
  | .behindEquals key, b :: rest =>
    if isQuote b then attributesFrom (.value key b []) rest
    else if isGap b then attributesFrom (.behindEquals key) rest
    else none
  | .value key quote sofar, b :: rest =>
    if b = quote then (attributesFrom .between rest).map ((key, sofar.reverse) :: ·)
    else attributesFrom (.value key quote (b :: sofar)) rest

/-- The attributes as they are written; no key may be repeated. -/
def rawAttributes? (v : Bytes) : Option (List (Bytes × Bytes)) := do
  let attributes ← attributesFrom .between v
  guard (attributes.map (·.1)).Nodup
  return attributes

/-- An attribute with its value as it was meant. -/
def readAttribute? (written : Bytes × Bytes) : Option (String × String) := do
  let value ← unescape? written.2
  return (Utf8.decodeLossy written.1, value)

/-- The part of a name in front of its first colon, if there is one, and the part behind. -/
def splitQualified (name : Bytes) : Option Bytes × Bytes :=
  match Bytes.cutAt? 0x3A name with
  | some (before, behind) => (some before, behind)
  | none => (none, name)

/-- The letters with which namespaces are declared. -/
def xmlns : Bytes := [0x78, 0x6D, 0x6C, 0x6E, 0x73]

/-- The part of a name that always stands for the namespace of markup itself. -/
def xmlWord : Bytes := [0x78, 0x6D, 0x6C]

/-- The namespace of markup itself. -/
def xmlNamespace : Bytes := Utf8.encode "http://www.w3.org/XML/1998/namespace"

/-- The namespace of the declarations. -/
def xmlnsNamespace : Bytes := Utf8.encode "http://www.w3.org/2000/xmlns/"

/-- A declaration that a part of names stands for a namespace.  The empty part is that of names
without one, and the empty namespace is none. -/
structure Binding where
  /-- The part in front of the colon. -/
  word : Bytes
  /-- The namespace. -/
  uri : Bytes
  deriving DecidableEq, Repr

/-- What an attribute declares, given its key and raw value: `none` if the declaration is not
allowed, and nothing if it is no declaration or one that is known beforehand. -/
def declaration? (key value : Bytes) : Option (List Binding) :=
  if key = xmlns then some [⟨[], value⟩]
  else if (xmlns ++ [0x3A]).isPrefixOf key then
    let word := key.drop 6
    if word = xmlWord then if value = xmlNamespace then some [] else none
    else if word = xmlns then none
    else if value = xmlNamespace ∨ value = xmlnsNamespace then none
    else some [⟨word, value⟩]
  else some []

/-- The declarations of the attributes in order. -/
def declarations? (attributes : List (Bytes × Bytes)) : Option (List Binding) := do
  let declared ← attributes.mapM fun (key, value) => declaration? key value
  return declared.flatten

/-- The namespace of a name with that part in front of the colon, where the latest declaration
comes first.  A part that no declaration knows stands for none. -/
def namespace? (bindings : List Binding) (word : Option Bytes) : Option Bytes :=
  match word with
  | some [] => none
  | _ =>
    match bindings.find? fun binding => binding.word == word.getD [] with
    | some binding => if binding.uri = [] then none else some binding.uri
    | none => none

/-- A start tag, read in the light of the elements around it. -/
structure Tag where
  /-- The namespace of its name. -/
  uri : Option Bytes
  /-- The name without the part for the namespace. -/
  name : String
  /-- The attributes in order. -/
  attributes : List (String × String)
  deriving DecidableEq, Repr

/-- The value of the attribute with that key, spelled exactly so. -/
def Tag.attribute? (t : Tag) (key : String) : Option String := t.attributes.lookup key

/-- An element that has begun and not ended. -/
structure OpenElement where
  /-- The name as it is written. -/
  name : Bytes
  /-- What its attributes declare. -/
  declared : List Binding
  deriving DecidableEq, Repr

/-- All declarations that hold within the elements, innermost element first; the latest comes
first. -/
def bindingsWithin (elements : List OpenElement) : List Binding :=
  elements.flatMap fun element => element.declared.reverse

/-- The tag with that content inside the elements, and the element that it begins. -/
def readTag? (elements : List OpenElement) (content : Bytes) : Option (Tag × OpenElement) := do
  let (name, rest) := splitName content
  let raw ← rawAttributes? rest
  let declared ← declarations? raw
  let attributes ← raw.mapM readAttribute?
  let element : OpenElement := ⟨name, declared⟩
  let (word, localName) := splitQualified name
  let uri := namespace? (bindingsWithin (element :: elements)) word
  return (⟨uri, Utf8.decodeLossy localName, attributes⟩, element)

/-- The name in an end tag, which may have white space behind it. -/
def endName (content : Bytes) : Bytes :=
  if content.all isGap then content else (content.reverse.dropWhile isGap).reverse

end DirectoryExchange.Xml

import DirectoryExchange.Base64
import DirectoryExchange.Model.Entry
import DirectoryExchange.Xml.Escape

/-!
# Entries as DSML

A document is a prolog, an element for every entry, and an epilogue, with a line for every tag.  The
object classes come first in an entry and have an element of their own.
-/

namespace DirectoryExchange.Dsml

/-- The namespace of all elements. -/
def namespaceUri : String := "http://www.dsml.org/DSML"

/-- Whether the value comes back from character data as it is: UTF-8 in which the only controls
are tab and line feed. -/
def isXmlSafe (v : Bytes) : Bool :=
  match Utf8.decode? v with
  | some text => text.toList.all fun c => c == '\t' || c == '\n' || ' ' ≤ c
  | none => false

/-- A line that is indented by so many tabs. -/
def line (indent : Nat) (text : String) : String :=
  String.ofList (List.replicate indent '\t') ++ text ++ "\n"

/-- The element of a value, with the value in base64 if it does not come back otherwise. -/
def valueElement (tag : String) (value : Bytes) : String :=
  match Utf8.decode? value with
  | some text =>
    if isXmlSafe value then s!"<{tag}>{Xml.escape text}</{tag}>"
    else s!"<{tag} encoding=\"base64\">{Base64.encode value}</{tag}>"
  | none => s!"<{tag} encoding=\"base64\">{Base64.encode value}</{tag}>"

/-- The lines of the values, each in its element. -/
def valueLines (tag : String) (values : List Bytes) : String :=
  String.join (values.map fun value => line 4 (valueElement tag value))

/-- The lines of the object classes, if there are any. -/
def objectClassLines (values : List Bytes) : String :=
  if values = [] then ""
  else
    line 3 "<dsml:objectclass>" ++ valueLines "dsml:oc-value" values ++
      line 3 "</dsml:objectclass>"

/-- The lines of an attribute. -/
def attributeLines (a : Attribute) : String :=
  line 3 s!"<dsml:attr name=\"{Xml.escape a.name}\">" ++ valueLines "dsml:value" a.values ++
    line 3 "</dsml:attr>"

/-- The lines of an entry. -/
def entryLines (e : Entry) : String :=
  line 2 s!"<dsml:entry dn=\"{Xml.escape e.dn}\">" ++ objectClassLines e.objectClasses ++
    String.join ((e.attributes.filter fun a => !a.isObjectClass).map attributeLines) ++
    line 2 "</dsml:entry>"

/-- What stands in front of the entries. -/
def prologLines : String :=
  line 0 "<?xml version=\"1.0\" encoding=\"UTF-8\"?>" ++
    line 0 s!"<dsml:dsml xmlns:dsml=\"{namespaceUri}\">" ++ line 1 "<dsml:directory-entries>"

/-- What stands behind the entries. -/
def epilogueLines : String := line 1 "</dsml:directory-entries>" ++ line 0 "</dsml:dsml>"

/-- The element of an entry as octets. -/
def renderEntry (e : Entry) : Bytes := Utf8.encode (entryLines e)

end DirectoryExchange.Dsml

import DirectoryExchange.Xml.Node

/-!
# Trees

What a document contains is a tree, and its nodes in order are the tree laid flat (`Forest.Flat`).
-/

namespace DirectoryExchange.Xml

/-- Siblings in order: character data, and elements with what they contain. -/
inductive Forest where
  | nil
  | text (value : Bytes) (rest : Forest)
  | element (tag : Tag) (inside rest : Forest)

namespace Forest

/-- The elements among the siblings. -/
def elements : Forest → List (Tag × Forest)
  | nil => []
  | text _ rest => rest.elements
  | element tag inside rest => (tag, inside) :: rest.elements

/-- All character data, in document order. -/
def characters : Forest → Bytes
  | nil => []
  | text value rest => value ++ rest.characters
  | element _ inside rest => inside.characters ++ rest.characters

/-- These nodes in a row are those of the siblings.  An element that contains nothing may be one tag
or two. -/
inductive Flat : Forest → List Node → Prop
  | nil : Flat nil []
  | text {value : Bytes} {rest : Forest} {nodes : List Node} (hrest : rest.Flat nodes) :
      Flat (text value rest) (.text value :: nodes)
  | empty {tag : Tag} {rest : Forest} {nodes : List Node} (hrest : rest.Flat nodes) :
      Flat (element tag nil rest) (.opened tag true :: nodes)
  | element {tag : Tag} {inside rest : Forest} {within nodes : List Node}
      (hinside : inside.Flat within) (hrest : rest.Flat nodes) :
      Flat (element tag inside rest) (.opened tag false :: within ++ .closed :: nodes)

end Forest

end DirectoryExchange.Xml

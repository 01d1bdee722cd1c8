import ProjectFile.Text.WhiteSpace

/-! # Elements

The part of a document's tree that a description is read from: elements with a name, a text, and
children. -/

namespace ProjectFile

/-- An element of a document. -/
structure Element where
  name : String
  /-- The texts directly in the element, one after the other. -/
  text : String := ""
  children : List Element := []

namespace Element

/-- The value that an element holds: its text without the white space around it. -/
def value (e : Element) : String :=
  Text.trim e.text

/-- The children with a name. -/
def named (e : Element) (name : String) : List Element :=
  e.children.filter (·.name == name)

/-- The last child with a name.  Where only one entry counts, it is the last one. -/
def last? (e : Element) (name : String) : Option Element :=
  (e.named name).getLast?

/-- The value of the last child with a name. -/
def lastValue? (e : Element) (name : String) : Option String :=
  (e.last? name).map value

/-- The value of the last child with a name, or nothing. -/
def lastValue (e : Element) (name : String) : String :=
  (e.lastValue? name).getD ""

/-- The values of the children with a name. -/
def values (e : Element) (name : String) : List String :=
  (e.named name).map value

end Element

end ProjectFile

-- SUMMARY: Tags of YAML nodes as octets, and the names they give.

/-!
# Tags

A tag gives the type of a node. It is a sequence of octets: escapes can put any
octets into it, so it need not be a text. A tag that begins with an exclamation
mark is the document's own. What follows the mark is the name of a type, and a
mark with nothing behind it is a name itself.
-/

namespace LogoSyntax.Yaml

/-- Octets that need not be a text. -/
abbrev Octets := List UInt8

namespace Octets

/-- The octets of a text. -/
def ofText (s : String) : Octets :=
  s.toUTF8.data.toList

/-- The text that the octets are, if they are one. -/
def text? (octets : Octets) : Option String :=
  String.fromUTF8? ⟨octets.toArray⟩

/-- The octets in front of the first null, which ends the text of a tag. -/
def untilNull (octets : Octets) : Octets :=
  octets.takeWhile (· ≠ 0)

end Octets

/-- The tag of a node. -/
structure Tag where
  octets : Octets
deriving DecidableEq, Repr

namespace Tag

/-- The exclamation mark in front of the document's own tags. -/
def localMark : UInt8 :=
  0x21

/-- Whether the tag is the document's own. -/
def isLocal (tag : Tag) : Bool :=
  tag.octets.head? == some localMark

/-- The text that the tag is, if it is one. -/
def text? (tag : Tag) : Option String :=
  tag.octets.text?

/-- The name of a type that a tag of the document's own gives. -/
def name? (tag : Tag) : Option String :=
  match tag.octets with
  | [] => none
  | first :: name =>
    if first ≠ localMark then none
    else if name.isEmpty then tag.text?
    else Octets.text? name

end Tag

end LogoSyntax.Yaml

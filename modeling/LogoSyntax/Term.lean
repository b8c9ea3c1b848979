-- SUMMARY: Constructor terms, the notation in which syntax trees are shown, and its two layouts.
import LogoSyntax.Text.Quoted

/-!
# Constructor terms

A constructor term shows a value by the constructors it is built with: a name
alone, a name with arguments in parentheses, or a name with named fields in
braces. Lists stand in square brackets and texts in quotes. `inline` writes a
term on one line. `indented` gives each argument, element and field a line of
its own that ends in a comma.
-/

namespace LogoSyntax

/-- A value by the constructors it is built with. -/
inductive Term where
  | bool (b : Bool)
  | text (s : String)
  | list (elements : List Term)
  /-- A constructor without arguments. -/
  | name (constructor : String)
  /-- A constructor with arguments. -/
  | apply (constructor : String) (arguments : List Term)
  /-- A constructor with named fields. -/
  | record (constructor : String) (fields : List (String × Term))
deriving Repr

namespace Term

/-- A text in quotes. -/
def writeText (s : String) (rest : List Char) : List Char :=
  Text.quotedBy Text.isVisible s.toList ++ rest

/-- A truth value. -/
def writeBool (b : Bool) (rest : List Char) : List Char :=
  (if b then "true" else "false").toList ++ rest

/-! ## On one line -/

mutual

/-- A term on one line, in front of a text. -/
def inlineBefore : Term → List Char → List Char
  | bool b, rest => writeBool b rest
  | text s, rest => writeText s rest
  | list ts, rest => '[' :: inlineAll true ts (']' :: rest)
  | name c, rest => c.toList ++ rest
  | apply c ts, rest => c.toList ++ '(' :: inlineAll true ts (')' :: rest)
  | record c fs, rest =>
    c.toList ++ ' ' :: '\x7b' :: ' ' :: inlineFields true fs (' ' :: '\x7d' :: rest)

/-- Terms with commas between them; `first` says that none was written yet. -/
def inlineAll (first : Bool) : List Term → List Char → List Char
  | [], rest => rest
  | t :: ts, rest =>
    (if first then [] else [',', ' ']) ++ t.inlineBefore (inlineAll false ts rest)

/-- Fields with commas between them; `first` says that none was written yet. -/
def inlineFields (first : Bool) : List (String × Term) → List Char → List Char
  | [], rest => rest
  | (label, t) :: fs, rest =>
    (if first then [] else [',', ' ']) ++ label.toList
      ++ ':' :: ' ' :: t.inlineBefore (inlineFields false fs rest)

end

/-- The term on one line. -/
def inline (t : Term) : String :=
  String.ofList (t.inlineBefore [])

/-! ## On several lines -/

/-- Spaces at the beginning of a line. -/
def indentation (indent : Nat) (rest : List Char) : List Char :=
  List.replicate indent ' ' ++ rest

mutual

/-- A term with four more spaces of indentation at each level, in front of a
    text. An empty list takes no line of its own. -/
def indentedBefore (indent : Nat) : Term → List Char → List Char
  | bool b, rest => writeBool b rest
  | text s, rest => writeText s rest
  | list [], rest => '[' :: ']' :: rest
  | list (t :: ts), rest =>
    '[' :: '\n' :: indentation (indent + 4)
      (t.indentedBefore (indent + 4)
        (',' :: '\n' :: indentedAll (indent + 4) ts (indentation indent (']' :: rest))))
  | name c, rest => c.toList ++ rest
  | apply c ts, rest =>
    c.toList ++ '(' :: '\n' :: indentedAll (indent + 4) ts (indentation indent (')' :: rest))
  | record c fs, rest =>
    c.toList ++ ' ' :: '\x7b' :: '\n'
      :: indentedFields (indent + 4) fs (indentation indent ('\x7d' :: rest))

/-- Terms, each on a line of its own with a comma behind it. -/
def indentedAll (indent : Nat) : List Term → List Char → List Char
  | [], rest => rest
  | t :: ts, rest =>
    indentation indent
      (t.indentedBefore indent (',' :: '\n' :: indentedAll indent ts rest))

/-- Fields, each on a line of its own with a comma behind it. -/
def indentedFields (indent : Nat) : List (String × Term) → List Char → List Char
  | [], rest => rest
  | (label, t) :: fs, rest =>
    indentation indent
      (label.toList ++ ':' :: ' '
        :: t.indentedBefore indent (',' :: '\n' :: indentedFields indent fs rest))

end

/-- The term with one argument, element or field on each line. -/
def indented (t : Term) : String :=
  String.ofList (t.indentedBefore 0 [])

end Term

end LogoSyntax

-- SUMMARY: JSON values and their two written forms.
import LogoSyntax.Text.Quoted

/-!
# JSON

A JSON value here has no fractions and no signs: its numbers are naturals. An
object is a list of fields in the order in which they are written. `compact`
writes a value on one line without spaces, and `pretty` writes each element and
each field on a line of its own. Both write in front of a text that is given,
so that writing takes time in the length of the result only.
-/

namespace LogoSyntax

/-- A JSON value. -/
inductive Json where
  | null
  | bool (b : Bool)
  | number (n : Nat)
  | text (s : String)
  | list (elements : List Json)
  | object (fields : List (String × Json))
deriving Repr

namespace Json

/-! ## Texts and numbers -/

/-- A character as it stands in a JSON string: quotes, backslashes and control
    characters are escaped. -/
def escapedChar (c : Char) : List Char :=
  if c = '"' then ['\\', '"']
  else if c = '\\' then ['\\', '\\']
  else if c = '\n' then ['\\', 'n']
  else if c = '\r' then ['\\', 'r']
  else if c = '\t' then ['\\', 't']
  else if c = '\x08' then ['\\', 'b']
  else if c = '\x0c' then ['\\', 'f']
  else if c.toNat < 0x20 then
    ['\\', 'u', '0', '0', Text.hexDigit (c.toNat / 16), Text.hexDigit (c.toNat % 16)]
  else [c]

/-- A JSON string. -/
def writeText (s : String) (rest : List Char) : List Char :=
  '"' :: s.toList.flatMap escapedChar ++ '"' :: rest

/-- A number in decimal digits. -/
def writeNumber (n : Nat) (rest : List Char) : List Char :=
  (Nat.repr n).toList ++ rest

/-- A truth value. -/
def writeBool (b : Bool) (rest : List Char) : List Char :=
  (if b then "true" else "false").toList ++ rest

/-! ## Compact form -/

mutual

/-- A value on one line, in front of a text. -/
def compactBefore : Json → List Char → List Char
  | null, rest => "null".toList ++ rest
  | bool b, rest => writeBool b rest
  | number n, rest => writeNumber n rest
  | text s, rest => writeText s rest
  | list vs, rest => '[' :: compactElements true vs (']' :: rest)
  | object fs, rest => '\x7b' :: compactFields true fs ('\x7d' :: rest)

/-- Elements with commas between them; `first` says that none was written yet. -/
def compactElements (first : Bool) : List Json → List Char → List Char
  | [], rest => rest
  | v :: vs, rest =>
    (if first then [] else [',']) ++ v.compactBefore (compactElements false vs rest)

/-- Fields with commas between them; `first` says that none was written yet. -/
def compactFields (first : Bool) : List (String × Json) → List Char → List Char
  | [], rest => rest
  | (key, v) :: fs, rest =>
    (if first then [] else [','])
      ++ writeText key (':' :: v.compactBefore (compactFields false fs rest))

end

/-- The value on one line. -/
def compact (v : Json) : String :=
  String.ofList (v.compactBefore [])

/-! ## Indented form -/

/-- A line break and the indentation behind it. -/
def newLine (indent : Nat) (rest : List Char) : List Char :=
  '\n' :: List.replicate indent ' ' ++ rest

mutual

/-- A value with two more spaces of indentation at each level, in front of a
    text. Empty lists and objects take no line of their own. -/
def prettyBefore (indent : Nat) : Json → List Char → List Char
  | null, rest => "null".toList ++ rest
  | bool b, rest => writeBool b rest
  | number n, rest => writeNumber n rest
  | text s, rest => writeText s rest
  | list [], rest => '[' :: ']' :: rest
  | list (v :: vs), rest =>
    '[' :: newLine (indent + 2)
      (v.prettyBefore (indent + 2)
        (prettyElements (indent + 2) vs (newLine indent (']' :: rest))))
  | object [], rest => '\x7b' :: '\x7d' :: rest
  | object ((key, v) :: fs), rest =>
    '\x7b' :: newLine (indent + 2)
      (writeText key
        (':' :: ' ' :: v.prettyBefore (indent + 2)
          (prettyFields (indent + 2) fs (newLine indent ('\x7d' :: rest)))))

/-- Further elements, each behind a comma and on a line of its own. -/
def prettyElements (indent : Nat) : List Json → List Char → List Char
  | [], rest => rest
  | v :: vs, rest =>
    ',' :: newLine indent (v.prettyBefore indent (prettyElements indent vs rest))

/-- Further fields, each behind a comma and on a line of its own. -/
def prettyFields (indent : Nat) : List (String × Json) → List Char → List Char
  | [], rest => rest
  | (key, v) :: fs, rest =>
    ',' :: newLine indent
      (writeText key (':' :: ' ' :: v.prettyBefore indent (prettyFields indent fs rest)))

end

/-- The value with one element or field on each line. -/
def pretty (v : Json) : String :=
  String.ofList (v.prettyBefore 0 [])

/-! ## Order of fields -/

/-- Puts a field in front of the first field with a greater key. -/
def insertField (field : String × Json) : List (String × Json) → List (String × Json)
  | [] => [field]
  | other :: rest =>
    if field.1 < other.1 then field :: other :: rest else other :: insertField field rest

mutual

/-- The value with the fields of every object in ascending order of their keys. -/
def sorted : Json → Json
  | list vs => list (sortedElements vs)
  | object fs => object (sortedFields fs)
  | v => v

/-- Elements with their fields in order. -/
def sortedElements : List Json → List Json
  | [] => []
  | v :: vs => v.sorted :: sortedElements vs

/-- Fields in ascending order of their keys, with the fields of their values in order. -/
def sortedFields : List (String × Json) → List (String × Json)
  | [] => []
  | (key, v) :: fs => insertField (key, v.sorted) (sortedFields fs)

end

end Json

end LogoSyntax

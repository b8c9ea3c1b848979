-- SUMMARY: JSON values written as YAML in block style.
import LogoSyntax.Json
import LogoSyntax.Yaml.Style

/-!
# YAML in block style

Every element of a list and every field of an object takes lines of its own. A
nested object or list inside a list begins on the line of its dash. The lines
of a list that is the value of a field are not indented any further than the
field, all other nested lines by two spaces. Empty lists and objects stand in
brackets and braces behind their dash or key.
-/

namespace LogoSyntax.Yaml

mutual

/-- A value behind a key, with the line break behind it. The key stands at
    `indent`. -/
def valueBefore (indent : Nat) : Json → List Char → List Char
  | .null, rest => " null".toList ++ '\n' :: rest
  | .bool b, rest => ' ' :: Json.writeBool b ('\n' :: rest)
  | .number n, rest => ' ' :: Json.writeNumber n ('\n' :: rest)
  | .text s, rest => ' ' :: writeText (indent + 2) s ('\n' :: rest)
  | .list [], rest => [' ', '[', ']', '\n'] ++ rest
  | .list (v :: vs), rest =>
    '\n' :: spaces indent
      ('-' :: elementBefore indent v (elementsBefore indent vs rest))
  | .object [], rest => [' ', '\x7b', '\x7d', '\n'] ++ rest
  | .object ((key, v) :: fs), rest =>
    '\n' :: spaces (indent + 2)
      (writeText (indent + 4) key
        (':' :: valueBefore (indent + 2) v (fieldsBefore (indent + 2) fs rest)))

/-- A value behind a dash, with the line break behind it. The dash stands at
    `indent`. -/
def elementBefore (indent : Nat) : Json → List Char → List Char
  | .null, rest => " null".toList ++ '\n' :: rest
  | .bool b, rest => ' ' :: Json.writeBool b ('\n' :: rest)
  | .number n, rest => ' ' :: Json.writeNumber n ('\n' :: rest)
  | .text s, rest => ' ' :: writeText (indent + 2) s ('\n' :: rest)
  | .list [], rest => [' ', '[', ']', '\n'] ++ rest
  | .list (v :: vs), rest =>
    ' ' :: '-' :: elementBefore (indent + 2) v (elementsBefore (indent + 2) vs rest)
  | .object [], rest => [' ', '\x7b', '\x7d', '\n'] ++ rest
  | .object ((key, v) :: fs), rest =>
    ' ' :: writeText (indent + 4) key
      (':' :: valueBefore (indent + 2) v (fieldsBefore (indent + 2) fs rest))

/-- Elements of a list whose dashes stand at `indent`. -/
def elementsBefore (indent : Nat) : List Json → List Char → List Char
  | [], rest => rest
  | v :: vs, rest =>
    spaces indent ('-' :: elementBefore indent v (elementsBefore indent vs rest))

/-- Fields of an object whose keys stand at `indent`. -/
def fieldsBefore (indent : Nat) : List (String × Json) → List Char → List Char
  | [], rest => rest
  | (key, v) :: fs, rest =>
    spaces indent
      (writeText (indent + 2) key (':' :: valueBefore indent v (fieldsBefore indent fs rest)))

end

/-- A value as a YAML document. -/
def print (v : Json) : String :=
  String.ofList <|
    match v with
    | .list (e :: es) => elementsBefore 0 (e :: es) []
    | .object (f :: fs) => fieldsBefore 0 (f :: fs) []
    | v => (valueBefore 0 v []).drop 1

/-- A value as a YAML document, with the fields of every object in ascending
    order of their keys. -/
def printSorted (v : Json) : String :=
  print v.sorted

end LogoSyntax.Yaml

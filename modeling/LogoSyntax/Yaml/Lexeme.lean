-- SUMMARY: The lexemes of YAML: indicators, borders, properties and scalars.
import LogoSyntax.Yaml.Input
import LogoSyntax.Yaml.Tag

/-!
# Lexemes

The lexemes of a YAML text are its indicators, the borders of documents,
directives, anchors, aliases, tags and scalars. The begin and end of block
collections are lexemes too, although indentation alone shows them.
-/

namespace LogoSyntax.Yaml

/-- How a scalar is written in a text. -/
inductive ScalarStyle where
  | plain | singleQuoted | doubleQuoted | literal | folded
deriving DecidableEq, Repr

/-- What a lexeme is. -/
inductive LexemeKind where
  | streamEnd
  | versionDirective (major minor : Nat)
  | tagDirective (handle : String) (meaning : Octets)
  | documentStart
  | documentEnd
  | blockSequenceStart
  | blockMappingStart
  | blockEnd
  | flowSequenceStart
  | flowSequenceEnd
  | flowMappingStart
  | flowMappingEnd
  | blockEntry
  | flowEntry
  | key
  | value
  | alias (name : String)
  | anchor (name : String)
  | tag (handle : String) (suffix : Octets)
  | scalar (text : String) (style : ScalarStyle)
deriving DecidableEq, Repr

/-- A lexeme with the marks of its first character and of the one behind its last. -/
structure Lexeme where
  kind : LexemeKind
  start : Mark
  stop : Mark
deriving DecidableEq, Repr

/-- A lexeme and the input behind it, or a fault in it. -/
abbrev Scanned := Except Fault (Lexeme × Input)

end LogoSyntax.Yaml

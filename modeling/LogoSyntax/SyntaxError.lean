-- SUMMARY: Syntax errors: what was being parsed, what was expected and what was found.
import LogoSyntax.Token

/-!
# Syntax errors

A syntax error names the production that was being parsed, what would have
fitted and the token that was found instead. It is lexical when that token is a
component that no shape fits.
-/

namespace LogoSyntax

/-- What would have fitted. -/
inductive Expected where
  /-- A token of one kind. -/
  | token (kind : TokenKind)
  /-- Any token that can begin the named production. -/
  | production (name : String)
deriving DecidableEq, Repr

/-- How a message names what was expected. -/
def Expected.name : Expected → String
  | token kind => kind.name
  | production name => name

/-- A token that does not fit the grammar, and where it was found. -/
structure SyntaxError where
  /-- The production that was being parsed. -/
  production : String
  expected : Expected
  found : TokenKind
  raw : String
  line : Nat
  col : Nat
deriving DecidableEq, Repr

namespace SyntaxError

/-- The error at a token. -/
def ofToken (production : String) (expected : Expected) (t : Token) : SyntaxError :=
  { production, expected, found := t.kind, raw := t.raw, line := t.line, col := t.col }

/-- Whether the error is that no shape fits a component. -/
def isLexical (e : SyntaxError) : Bool :=
  e.found == .notFound

/-- The message of the error, with the raw text of the token if it has one. -/
def message (e : SyntaxError) : String :=
  "[" ++ toString e.line ++ ":" ++ toString e.col ++ "] " ++ e.production ++ ": expected "
    ++ e.expected.name ++ ", found " ++ e.found.name
    ++ (if e.raw.isEmpty then "" else " '" ++ e.raw ++ "'")

end SyntaxError

end LogoSyntax

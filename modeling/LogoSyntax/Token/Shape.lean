-- SUMMARY: The shapes of components, the ordered table of them, and classification.
import LogoSyntax.Regex
import LogoSyntax.Token

/-!
# Shapes

A shape says how a component of one kind is written and which part of it is the
token's value. Classification takes the first shape of a table that the whole
component fits. The first shape of the standard table is that of names: a name
that is spelled like a keyword becomes that keyword and carries no value.
-/

namespace LogoSyntax

open Regex

/-- Which part of a component is the value of its token. -/
inductive Payload where
  /-- The token has no value. -/
  | nothing
  /-- The value is the whole component. -/
  | whole
  /-- The value is the component without its first character. -/
  | afterFirst
deriving DecidableEq, Repr

/-- The value that a component gives. -/
def Payload.of (payload : Payload) (cs : List Char) : Option String :=
  match payload with
  | nothing => none
  | whole => some (String.ofList cs)
  | afterFirst => some (String.ofList cs.tail)

/-- How components of one kind are written. -/
structure Shape where
  kind : TokenKind
  regex : Regex
  payload : Payload
deriving DecidableEq, Repr

namespace Shape

/-! ## Building blocks -/

/-- A decimal digit. -/
def digit : Regex :=
  oneOf [('0', '9')]

/-- A letter or underscore, then letters, underscores and digits. -/
def identifier : Regex :=
  seq (oneOf [('_', '_'), ('A', 'Z'), ('a', 'z')])
    (star (oneOf [('_', '_'), ('A', 'Z'), ('a', 'z'), ('0', '9')]))

/-- A plus or minus sign, or none. -/
def optionalSign : Regex :=
  optional (oneOf [('-', '-'), ('+', '+')])

/-- The letter of an exponent, a sign or none, and the digits. -/
def exponent : Regex :=
  seq (oneOf [('e', 'e'), ('E', 'E')]) (seq optionalSign (plus digit))

/-- An integer, or a fraction with digits behind the point, with an optional
    sign in front and an optional exponent behind. -/
def numeral : Regex :=
  seq optionalSign
    (seq (alt (seq (star digit) (seq (single '.') (plus digit))) (plus digit))
      (optional exponent))

/-- The shape of a component that is one given character. -/
def symbol (kind : TokenKind) (c : Char) : Shape :=
  ⟨kind, single c, .nothing⟩

/-! ## The table -/

/-- The shapes in the order in which they are tried. -/
def table : List Shape :=
  [ ⟨.procedure, seq identifier (optional (single '?')), .whole⟩,
    ⟨.variableName, seq (single ':') identifier, .afterFirst⟩,
    ⟨.word, seq (oneOf [('"', '"'), ('\'', '\'')]) identifier, .afterFirst⟩,
    ⟨.number, numeral, .whole⟩ ]
  ++ Delimiter.all.flatMap (fun d =>
      [symbol (.left d) d.opening, symbol (.right d) d.closing])
  ++ Operator.all.map (fun o => symbol (.sign o) o.symbol)

/-- Whether a component fits the shape as a whole. -/
def fits (s : Shape) (cs : List Char) : Bool :=
  s.regex.accepts cs

/-- What a fitting component stands for. -/
def reading (s : Shape) (cs : List Char) : TokenKind × Option String :=
  match s.kind, Keyword.ofSpelling? (String.ofList cs) with
  | .procedure, some k => (.keyword k, none)
  | kind, _ => (kind, s.payload.of cs)

end Shape

/-- What a component stands for by the first shape of a table that it fits. -/
def classifyBy (table : List Shape) (cs : List Char) : Option (TokenKind × Option String) :=
  (table.find? (·.fits cs)).map (·.reading cs)

/-- What a component stands for, if anything. -/
def classify (cs : List Char) : Option (TokenKind × Option String) :=
  classifyBy Shape.table cs

end LogoSyntax

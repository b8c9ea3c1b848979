-- SUMMARY: Token kinds, their two spellings, and tokens with their positions.

/-!
# Tokens

A token is what a component of the source stands for: a name, a literal, a
delimiter, a sign or a keyword. Three further kinds are markers. `endOfLine`
separates two lines, `noMore` stands at the end of a source that was read
completely, and `notFound` stands in the place of a component that no shape
fits.

A kind has two spellings. `name` is shown in tables and messages, and `tag` is
written when a token is serialized. They differ for the three keywords that are
made of two words.
-/

namespace LogoSyntax

/-! ## Parts of a kind -/

/-- A binary operator of the language. -/
inductive Operator where
  | add | sub | mul | div | rem | pow
deriving DecidableEq, Repr

namespace Operator

/-- The character that stands for the operator in a program. -/
def symbol : Operator → Char
  | add => '+'
  | sub => '-'
  | mul => '*'
  | div => '/'
  | rem => '%'
  | pow => '^'

/-- The name of the operator's sign in a token kind. -/
def signName : Operator → String
  | add => "PLUS"
  | sub => "MINUS"
  | mul => "STAR"
  | div => "SLASH"
  | rem => "PERCENT"
  | pow => "CARET"

/-- All operators. -/
def all : List Operator :=
  [add, sub, mul, div, rem, pow]

end Operator

/-- A kind of paired delimiter. -/
inductive Delimiter where
  /-- Square brackets, around bodies and lists. -/
  | bracket
  /-- Curly braces, around arrays. -/
  | brace
  /-- Parentheses, around groups and calls of any arity. -/
  | parenthesis
deriving DecidableEq, Repr

namespace Delimiter

/-- The character that opens the pair. -/
def opening : Delimiter → Char
  | bracket => '['
  | brace => '\x7b'
  | parenthesis => '('

/-- The character that closes the pair. -/
def closing : Delimiter → Char
  | bracket => ']'
  | brace => '\x7d'
  | parenthesis => ')'

/-- The name of the delimiter in a token kind. -/
def name : Delimiter → String
  | bracket => "BRACKET"
  | brace => "BRACE"
  | parenthesis => "PARENTHESIS"

/-- All delimiters. -/
def all : List Delimiter :=
  [bracket, brace, parenthesis]

end Delimiter

/-- A keyword that begins a control block. -/
inductive Keyword where
  | run | ifTrue | ifElse | repeatTimes | doWhile | whileDo | doUntil | untilDo
  | output | stop | bye
deriving DecidableEq, Repr

namespace Keyword

/-- The keyword as it is written in a program. -/
def spelling : Keyword → String
  | run => "RUN"
  | ifTrue => "IF"
  | ifElse => "IFELSE"
  | repeatTimes => "REPEAT"
  | doWhile => "DOWHILE"
  | whileDo => "WHILE"
  | doUntil => "DOUNTIL"
  | untilDo => "UNTIL"
  | output => "OUTPUT"
  | stop => "STOP"
  | bye => "BYE"

/-- The keyword as it is serialized: its words are separated by an underscore. -/
def tag : Keyword → String
  | ifElse => "IF_ELSE"
  | doWhile => "DO_WHILE"
  | doUntil => "DO_UNTIL"
  | k => k.spelling

/-- All keywords. -/
def all : List Keyword :=
  [run, ifTrue, ifElse, repeatTimes, doWhile, whileDo, doUntil, untilDo, output, stop, bye]

/-- The keyword with exactly this spelling; case matters. -/
def ofSpelling? (text : String) : Option Keyword :=
  all.find? (·.spelling == text)

end Keyword

/-! ## Kinds -/

/-- What a token stands for. -/
inductive TokenKind where
  /-- The end of a source that was read completely. -/
  | noMore
  /-- A component that no shape fits. -/
  | notFound
  /-- The border between two lines. -/
  | endOfLine
  | procedure
  | variableName
  | word
  | number
  | left (delimiter : Delimiter)
  | right (delimiter : Delimiter)
  | sign (operator : Operator)
  | keyword (keyword : Keyword)
deriving DecidableEq, Repr

namespace TokenKind

/-- The name that tables and messages show. -/
def name : TokenKind → String
  | noMore => "NO_MORE"
  | notFound => "NOT_FOUND"
  | endOfLine => "END_OF_LINE"
  | procedure => "PROCEDURE"
  | variableName => "VARIABLE"
  | word => "WORD"
  | number => "NUMBER"
  | left d => "LEFT_" ++ d.name
  | right d => "RIGHT_" ++ d.name
  | sign o => "SIGN_" ++ o.signName
  | keyword k => k.spelling

/-- The spelling in serialized tokens. -/
def tag : TokenKind → String
  | keyword k => k.tag
  | kind => kind.name

/-- All kinds. -/
def all : List TokenKind :=
  [noMore, notFound, endOfLine, procedure, variableName, word, number]
    ++ Delimiter.all.flatMap (fun d => [left d, right d])
    ++ Operator.all.map sign ++ Keyword.all.map keyword

/-- The kind with this serialized spelling. -/
def ofTag? (text : String) : Option TokenKind :=
  all.find? (·.tag == text)

/-- Whether a matched token of this kind carries a value. -/
def hasValue : TokenKind → Bool
  | procedure | variableName | word | number => true
  | _ => false

/-- Whether the kind is a control keyword. -/
def isKeyword : TokenKind → Bool
  | keyword _ => true
  | _ => false

theorem mem_all (kind : TokenKind) : kind ∈ all := by
  cases kind with
  | left d | right d => cases d <;> decide
  | sign o => cases o <;> decide
  | keyword k => cases k <;> decide
  | _ => decide

end TokenKind

/-! ## Tokens -/

/-- A token with the place it was found in. -/
structure Token where
  kind : TokenKind
  /-- The component as it is written; empty for the markers of line and source ends. -/
  raw : String
  /-- The name or number that the component carries. -/
  value : Option String
  /-- False when nothing was recognized, be it at the end of the source or
      in front of a component that no shape fits. -/
  matched : Bool
  line : Nat
  col : Nat
deriving DecidableEq, Repr

/-- A token that stands for no component. -/
def Token.marker (kind : TokenKind) (matched : Bool) (line col : Nat) : Token :=
  { kind, raw := "", value := none, matched, line, col }

/-- The text that a token contributes to a syntax tree: its value, or else its raw text. -/
def Token.payload (t : Token) : String :=
  t.value.getD t.raw

end LogoSyntax

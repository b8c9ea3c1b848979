-- SUMMARY: How a text is written as a YAML scalar: plain, quoted, or as a block of lines.
import LogoSyntax.Text.Quoted
import LogoSyntax.Yaml.Scalar

/-!
# Scalar styles

A text is written plainly when that reads back as the same text. Otherwise it
stands in single quotes, in double quotes when a character of it has to be
escaped, and as a block of lines when it has line feeds. Text is never folded.

`Survey` collects what the choice depends on in one pass over the text.
-/

namespace LogoSyntax.Yaml

/-! ## Characters -/

/-- The characters that end a line. -/
def isBreak (c : Char) : Bool :=
  c = '\n' || c = '\r' || c = '\u0085' || c = '\u2028' || c = '\u2029'

/-- A space or a tab. -/
def isSpaceOrTab (c : Char) : Bool :=
  c = ' ' || c = '\t'

/-- Blanks and breaks, and the null character, which stands for the end. -/
def isSeparator (c : Char) : Bool :=
  isSpaceOrTab c || isBreak c || c = '\x00'

/-- Whether the next character, or the end, separates. -/
def startsWithSeparator : List Char → Bool
  | [] => true
  | c :: _ => isSeparator c

/-- The characters that may stand in a scalar without an escape. -/
def isPrintable (c : Char) : Bool :=
  let n := c.toNat
  n = 0x0A || (0x20 ≤ n && n ≤ 0x7E) || (0xA0 ≤ n && n ≤ 0xFFFD && n ≠ 0xFEFF) || 0x10000 ≤ n

/-! ## Survey -/

/-- What the choice of a style depends on. -/
structure Survey where
  /-- A character or a pair of them would be read as YAML's own. -/
  indicator : Bool
  /-- A character has to be escaped. -/
  special : Bool
  /-- A character ends a line. -/
  lineBreak : Bool
  /-- A space follows a break. -/
  breakSpace : Bool
  /-- A break follows a space. -/
  spaceBreak : Bool
deriving DecidableEq, Repr

/-- Whether a character between `before` and `after` would be read as YAML's own. -/
def isIndicator (before : Option Char) (c : Char) (after : List Char) : Bool :=
  match before with
  | none =>
    c ∈ ['#', ',', '[', ']', '\x7b', '\x7d', '&', '*', '!', '|', '>', '\'', '"', '%', '@', '\x60']
      || (c ∈ ['?', ':', '-'] && startsWithSeparator after)
  | some b => (c = ':' && startsWithSeparator after) || (c = '#' && isSeparator b)

/-- The survey of the characters behind `before`. -/
def surveyFrom (before : Option Char) : List Char → Survey
  | [] => ⟨false, false, false, false, false⟩
  | c :: cs =>
    let rest := surveyFrom (some c) cs
    let afterBreak := before.any isBreak
    let afterSpace := before == some ' '
    { indicator := isIndicator before c cs || rest.indicator
      special := !isPrintable c || rest.special
      lineBreak := isBreak c || rest.lineBreak
      breakSpace := (afterBreak && c = ' ') || rest.breakSpace
      spaceBreak := (afterSpace && isBreak c) || rest.spaceBreak }

/-- Whether a text begins like the border of a document. -/
def startsLikeBorder (cs : List Char) : Bool :=
  ['-', '-', '-'].isPrefixOf cs || ['.', '.', '.'].isPrefixOf cs

/-- Whether a text begins or ends with a space or a break. -/
def hasLooseEnd (cs : List Char) : Bool :=
  let loose := fun c => c = ' ' || isBreak c
  cs.head?.any loose || cs.getLast?.any loose

/-! ## Choice -/

/-- How a scalar is written. -/
inductive Style where
  | plain
  | singleQuoted
  | doubleQuoted
  /-- A block of lines that are written as they are. -/
  | literal
deriving DecidableEq, Repr

/-- The style in which a text is written. -/
def Style.ofText (s : String) : Style :=
  let cs := s.toList
  let survey := surveyFrom none cs
  let unquotable := survey.special || survey.spaceBreak
  if '\n' ∈ cs then
    if unquotable || cs.getLast? == some ' ' then doubleQuoted else literal
  else
    let plainAllowed := !(startsLikeBorder cs || survey.indicator || hasLooseEnd cs
      || survey.breakSpace || unquotable || survey.lineBreak)
    if plainAllowed && !needsQuotes s then plain
    else if survey.breakSpace || unquotable then doubleQuoted
    else singleQuoted

/-! ## Writing -/

/-- An upper case hexadecimal number of a given width. -/
def upperHex (width n : Nat) : List Char :=
  (List.range width).reverse.map fun place => (Text.hexDigit (n / Nat.pow 16 place % 16)).toUpper

/-- The escape of a character in double quotes. -/
def escape (c : Char) : List Char :=
  '\\' ::
    match c.toNat with
    | 0x00 => ['0']
    | 0x07 => ['a']
    | 0x08 => ['b']
    | 0x09 => ['t']
    | 0x0A => ['n']
    | 0x0B => ['v']
    | 0x0C => ['f']
    | 0x0D => ['r']
    | 0x1B => ['e']
    | 0x22 => ['"']
    | 0x5C => ['\\']
    | 0x85 => ['N']
    | 0x2028 => ['L']
    | 0x2029 => ['P']
    | n =>
      if n ≤ 0xFF then 'x' :: upperHex 2 n
      else if n ≤ 0xFFFF then 'u' :: upperHex 4 n
      else 'U' :: upperHex 8 n

/-- A text in double quotes. -/
def writeDoubleQuoted (cs rest : List Char) : List Char :=
  let char := fun c =>
    if !isPrintable c || isBreak c || c = '"' || c = '\\' then escape c else [c]
  '"' :: cs.flatMap char ++ '"' :: rest

/-- The spaces at the beginning of a line. -/
def spaces (n : Nat) (rest : List Char) : List Char :=
  List.replicate n ' ' ++ rest

/-- The characters of a text in single quotes. A character behind a break stands
    behind the indentation; `fresh` says that a break was written last. -/
def singleQuotedChars (indent : Nat) (fresh : Bool) : List Char → List Char → List Char
  | [], rest => if fresh then spaces indent rest else rest
  | c :: cs, rest =>
    if c = ' ' then ' ' :: singleQuotedChars indent fresh cs rest
    else if isBreak c then c :: singleQuotedChars indent true cs rest
    else
      let written := if c = '\'' then '\'' :: '\'' :: singleQuotedChars indent false cs rest
        else c :: singleQuotedChars indent false cs rest
      if fresh then spaces indent written else written

/-- The lines of a block scalar, with their indentation; `fresh` says that a
    break was written last. -/
def literalChars (indent : Nat) (fresh : Bool) : List Char → List Char → List Char
  | [], rest => rest
  | c :: cs, rest =>
    if isBreak c then c :: literalChars indent true cs rest
    else
      let written := c :: literalChars indent false cs rest
      if fresh then spaces indent written else written

/-- Whether the text ends in more than one break, or is a single one. -/
def keepsBreaks (cs : List Char) : Bool :=
  match cs.reverse with
  | [c] => isBreak c
  | c :: d :: _ => isBreak c && isBreak d
  | [] => false

/-- What stands behind the bar of a block scalar: the indentation when the text
    begins with a space or break, and the treatment of the breaks at its end
    unless there is exactly one. -/
def literalHints (cs : List Char) : List Char :=
  (if cs.head?.any (fun c => c = ' ' || isBreak c) then ['2'] else [])
    ++ (if keepsBreaks cs then ['+'] else if cs.getLast?.any isBreak then [] else ['-'])

/-- A text as a scalar in front of what follows. Lines of the scalar behind its
    first are indented. -/
def writeText (indent : Nat) (s : String) (rest : List Char) : List Char :=
  let cs := s.toList
  match Style.ofText s with
  | .plain => cs ++ rest
  | .singleQuoted => '\'' :: singleQuotedChars indent false cs ('\'' :: rest)
  | .doubleQuoted => writeDoubleQuoted cs rest
  | .literal =>
    let body := literalChars indent true cs
    let ended := if cs.getLast?.any isBreak then rest.drop 1 else rest
    '|' :: literalHints cs ++ '\n' :: body ended

end LogoSyntax.Yaml

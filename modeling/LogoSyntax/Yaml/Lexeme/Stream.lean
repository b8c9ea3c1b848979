-- SUMMARY: The lexemes of a YAML text, with the borders of its block collections.
import LogoSyntax.Yaml.Lexeme.Block
import LogoSyntax.Yaml.Lexeme.Flow
import LogoSyntax.Yaml.Lexeme.Gap
import LogoSyntax.Yaml.Lexeme.Property

/-!
# Lexemes of a text

A colon can show that the lexeme in front of it is a key, and then the key mark
and perhaps the beginning of a mapping have to be inserted before that lexeme.
So a scanner remembers for each open bracket or brace which lexeme may still
turn out to be a key. In block context a lexeme in the column of the mapping
must be one.

When a fault is found, the lexemes from the first possible key onwards are not
settled yet, and they are dropped, as are those that were read together with the
fault. Possible keys are checked before and behind each lexeme, so a lexeme that
has to be a key and turns out to be none is a fault as soon as that is known.
-/

namespace LogoSyntax.Yaml

/-- A lexeme that may turn out to be a key. -/
structure PossibleKey where
  /-- The number of lexemes before it. -/
  position : Nat
  mark : Mark
  /-- Whether it has to be one. -/
  required : Bool
deriving DecidableEq, Repr

/-- What is known in the middle of a text. -/
structure Scanner where
  input : Input
  /-- The lexemes so far, the latest first. -/
  lexemes : List Lexeme
  /-- The column of the innermost block collection, or -1. -/
  indent : Int
  /-- The columns of the block collections around it. -/
  indents : List Int
  /-- The possible key between the innermost brackets or braces, if any are open. -/
  key : Option PossibleKey
  /-- The possible keys around it, one for each open bracket or brace. -/
  outer : List (Option PossibleKey)
  /-- Whether the next lexeme can be a key. -/
  keyAllowed : Bool
deriving DecidableEq, Repr

/-- The lexemes of a text, and the fault that ends them early. -/
structure Lexemes where
  lexemes : List Lexeme
  fault : Option Fault
deriving DecidableEq, Repr

namespace Scanner

/-- The scanner at the beginning of a text. -/
def ofText (cs : List Char) : Scanner :=
  ⟨Input.ofText cs, [], -1, [], none, [], true⟩

/-- Whether brackets or braces are open. -/
def inFlow (s : Scanner) : Bool :=
  !s.outer.isEmpty

/-- The mark of the next character. -/
def mark (s : Scanner) : Mark :=
  s.input.mark

/-- Adds a lexeme. -/
def push (s : Scanner) (lexeme : Lexeme) : Scanner :=
  { s with lexemes := lexeme :: s.lexemes }

/-- Adds a lexeme and goes on behind it. -/
def pushScanned (s : Scanner) : Scanned → Except Fault Scanner
  | .ok (lexeme, rest) => .ok { s.push lexeme with input := rest }
  | .error e => .error e

/-- Adds a lexeme of some characters and goes on behind them. -/
def pushSymbol (s : Scanner) (kind : LexemeKind) (length : Nat) : Scanner :=
  let rest := s.input.skip length
  { s.push ⟨kind, s.mark, rest.mark⟩ with input := rest }

/-- Inserts a lexeme behind the first `position` ones. -/
def insertAt (s : Scanner) (position : Nat) (lexeme : Lexeme) : Scanner :=
  { s with lexemes := s.lexemes.insertIdx (s.lexemes.length - position) lexeme }

/-! ## Possible keys -/

/-- The fault that a lexeme which has to be a key is none. -/
def missingColon (s : Scanner) (k : PossibleKey) : Fault :=
  .during "while scanning a simple key" k.mark "could not find expected ':'" s.mark

/-- Whether a colon at the present mark would come too late for a key. -/
def isStale (s : Scanner) (k : PossibleKey) : Bool :=
  k.mark.line < s.mark.line || k.mark.index + 1024 < s.mark.index

/-- Gives up a possible key if it is stale. -/
def checkKey (s : Scanner) (key : Option PossibleKey) : Except Fault (Option PossibleKey) :=
  match key with
  | none => .ok none
  | some k =>
    if !s.isStale k then .ok (some k)
    else if k.required then .error (s.missingColon k)
    else .ok none

/-- Gives up all possible keys that are stale. -/
def checkKeys (s : Scanner) : Except Fault Scanner := do
  let outer ← s.outer.mapM s.checkKey
  let key ← s.checkKey s.key
  return { s with outer, key }

/-- Gives up the innermost possible key. -/
def dropKey (s : Scanner) : Except Fault Scanner :=
  match s.key with
  | some k => if k.required then .error (s.missingColon k) else .ok { s with key := none }
  | none => .ok s

/-- Takes the next lexeme for a possible key, if one is allowed. -/
def offerKey (s : Scanner) : Except Fault Scanner :=
  if s.keyAllowed then do
    let required := !s.inFlow && s.indent == s.mark.column
    return { ← s.dropKey with key := some ⟨s.lexemes.length, s.mark, required⟩ }
  else .ok s

/-! ## Indentation -/

/-- Opens a block collection if a column is further to the right than the
    innermost one. Its beginning stands behind the first `position` lexemes. -/
def openBlock (s : Scanner) (column : Nat) (position : Nat) (kind : LexemeKind) (mark : Mark) :
    Scanner :=
  if !s.inFlow && s.indent < column then
    { s.insertAt position ⟨kind, mark, mark⟩ with
      indent := column, indents := s.indent :: s.indents }
  else s

/-- Closes block collections that are open at the mark, given their columns. -/
def closeFrom (s : Scanner) (column indent : Int) : List Int → Scanner
  | [] => { s with indent, indents := [] }
  | outer :: indents =>
    if column < indent then
      (s.push ⟨.blockEnd, s.mark, s.mark⟩).closeFrom column outer indents
    else { s with indent, indents := outer :: indents }

/-- Closes the block collections that stand further to the right than a column. -/
def closeBlocks (s : Scanner) (column : Int) : Scanner :=
  if s.inFlow then s else s.closeFrom column s.indent s.indents

/-! ## Single lexemes -/

/-- The end of the text, which stands at the beginning of a line. -/
def fetchEnd (s : Scanner) : Except Fault Scanner := do
  let mark := if s.mark.column = 0 then s.mark else s.mark.down 0
  let s ← ({ s with input := { s.input with mark } }.closeBlocks (-1)).dropKey
  return { s.pushSymbol .streamEnd 0 with keyAllowed := false }

/-- A directive. -/
def fetchDirective (s : Scanner) : Except Fault Scanner := do
  let s ← (s.closeBlocks (-1)).dropKey
  { s with keyAllowed := false }.pushScanned (scanDirective s.input)

/-- The border of a document. -/
def fetchBorder (s : Scanner) (kind : LexemeKind) : Except Fault Scanner := do
  let s ← (s.closeBlocks (-1)).dropKey
  return { s with keyAllowed := false }.pushSymbol kind 3

/-- An opening bracket or brace. -/
def fetchOpening (s : Scanner) (kind : LexemeKind) : Except Fault Scanner := do
  let s ← s.offerKey
  return { s with key := none, outer := s.key :: s.outer, keyAllowed := true }.pushSymbol kind 1

/-- A closing bracket or brace. -/
def fetchClosing (s : Scanner) (kind : LexemeKind) : Except Fault Scanner := do
  let s ← s.dropKey
  let s := match s.outer with
    | key :: outer => { s with key, outer }
    | [] => s
  return { s with keyAllowed := false }.pushSymbol kind 1

/-- A comma. -/
def fetchComma (s : Scanner) : Except Fault Scanner := do
  let s ← s.dropKey
  return { s with keyAllowed := true }.pushSymbol .flowEntry 1

/-- A dash. -/
def fetchDash (s : Scanner) : Except Fault Scanner := do
  if !s.inFlow && !s.keyAllowed then
    throw (.plain "block sequence entries are not allowed in this context" s.mark)
  let s ← (s.openBlock s.mark.column s.lexemes.length .blockSequenceStart s.mark).dropKey
  return { s with keyAllowed := true }.pushSymbol .blockEntry 1

/-- A question mark. -/
def fetchKey (s : Scanner) : Except Fault Scanner := do
  if !s.inFlow && !s.keyAllowed then
    throw (.plain "mapping keys are not allowed in this context" s.mark)
  let s ← (s.openBlock s.mark.column s.lexemes.length .blockMappingStart s.mark).dropKey
  return { s with keyAllowed := !s.inFlow }.pushSymbol .key 1

/-- A colon. -/
def fetchColon (s : Scanner) : Except Fault Scanner :=
  match s.key with
  | some k =>
    let s := (s.insertAt k.position ⟨.key, k.mark, k.mark⟩).openBlock k.mark.column k.position
      .blockMappingStart k.mark
    .ok ({ s with key := none, keyAllowed := false }.pushSymbol .value 1)
  | none =>
    if !s.inFlow && !s.keyAllowed then
      .error (.plain "mapping values are not allowed in this context" s.mark)
    else
      let s := s.openBlock s.mark.column s.lexemes.length .blockMappingStart s.mark
      .ok ({ s with keyAllowed := !s.inFlow }.pushSymbol .value 1)

/-- A lexeme that can be a key, but behind which no key can begin. -/
def fetchNode (s : Scanner) (scan : Input → Scanned) : Except Fault Scanner := do
  let s ← s.offerKey
  { s with keyAllowed := false }.pushScanned (scan s.input)

/-- A block scalar. -/
def fetchBlock (s : Scanner) (folded : Bool) : Except Fault Scanner := do
  let s ← s.dropKey
  { s with keyAllowed := true }.pushScanned (scanBlock folded s.indent s.input)

/-- A plain scalar. A key can begin behind it if it ends behind a line break. -/
def fetchPlain (s : Scanner) : Except Fault Scanner := do
  let s ← s.offerKey
  let (lexeme, broken, rest) ← scanPlain s.inFlow s.indent s.input
  return { s.push lexeme with input := rest, keyAllowed := broken }

/-! ## The next lexeme -/

/-- Whether a plain scalar can begin with a character. -/
def startsPlain (inFlow : Bool) (c : Char) (after : List Char) : Bool :=
  let isIndicator := c ∈ ['-', '?', ':', ',', '[', ']', '\x7b', '\x7d', '#', '&', '*', '!', '|',
    '>', '\'', '"', '%', '@', '\x60']
  !(isSeparator c || isIndicator)
    || (c = '-' && !after.head?.any isSpaceOrTab)
    || (!inFlow && (c = '?' || c = ':') && !startsWithSeparator after)

/-- The lexeme at the present mark, which is not in a gap. -/
def fetchHere (s : Scanner) : Except Fault Scanner :=
  match s.input.chars with
  | [] => s.fetchEnd
  | c :: after =>
    let separated := s.inFlow || startsWithSeparator after
    if s.mark.column = 0 && c = '%' then s.fetchDirective
    else if s.input.atBorderOf '-' then s.fetchBorder .documentStart
    else if s.input.atBorderOf '.' then s.fetchBorder .documentEnd
    else if c = '[' then s.fetchOpening .flowSequenceStart
    else if c = '\x7b' then s.fetchOpening .flowMappingStart
    else if c = ']' then s.fetchClosing .flowSequenceEnd
    else if c = '\x7d' then s.fetchClosing .flowMappingEnd
    else if c = ',' then s.fetchComma
    else if c = '-' && startsWithSeparator after then s.fetchDash
    else if c = '?' && separated then s.fetchKey
    else if c = ':' && separated then s.fetchColon
    else if c = '*' then s.fetchNode scanAlias
    else if c = '&' then s.fetchNode scanAnchor
    else if c = '!' then s.fetchNode (scanTag s.inFlow)
    else if c = '|' && !s.inFlow then s.fetchBlock false
    else if c = '>' && !s.inFlow then s.fetchBlock true
    else if c = '\'' then s.fetchNode (scanQuoted '\'' .singleQuoted)
    else if c = '"' then s.fetchNode (scanQuoted '"' .doubleQuoted)
    else if startsPlain s.inFlow c after then s.fetchPlain
    else
      .error (.during "while scanning for the next token" s.mark
        "found character that cannot start any token" s.mark)

/-- The next lexeme, behind a gap, and the block collections that end before it. -/
def fetch (s : Scanner) : Except Fault Scanner := do
  let gap := s.input.skipGap s.inFlow s.keyAllowed
  let s ← { s with input := gap.input, keyAllowed := gap.keyAllowed }.checkKeys
  (s.closeBlocks s.mark.column).fetchHere

/-! ## All lexemes -/

/-- The lexemes in front of the first possible key. -/
def settled (s : Scanner) : List Lexeme :=
  let keys := (s.key :: s.outer).filterMap id
  s.lexemes.reverse.take (keys.foldl (fun n k => min n k.position) s.lexemes.length)

/-- Whether the end of the text was reached. -/
def isDone (s : Scanner) : Bool :=
  s.lexemes.head?.any (·.kind == .streamEnd)

/-- The scanner behind the next lexeme. The character behind the lexeme is needed
    too, and so is the one at a fault. -/
def advance (forbidden : Option Forbidden) (s : Scanner) : Except Fault Scanner :=
  match s.fetch.bind checkKeys with
  | .error fault => .error ((forbiddenAt? forbidden fault.mark.index).getD fault)
  | .ok next =>
    match forbiddenAt? forbidden next.mark.index with
    | some fault => .error fault
    | none => .ok next

/-- The lexemes of the rest of a text behind those so far. Every lexeme but the
    end of the text takes characters. -/
def scanAll (forbidden : Option Forbidden) (s : Scanner) : Lexemes :=
  match s.advance forbidden with
  | .error fault => ⟨s.settled, some fault⟩
  | .ok next =>
    if next.isDone then ⟨next.lexemes.reverse, none⟩
    else if _h : next.input.chars.length < s.input.chars.length then next.scanAll forbidden
    else ⟨next.lexemes.reverse, none⟩
termination_by s.input.chars.length

end Scanner

/-- The lexemes of a text. -/
def Lexemes.ofText (s : String) : Lexemes :=
  (Scanner.ofText s.toList).scanAll (forbiddenFrom? 0 0 s.toList)

end LogoSyntax.Yaml

-- SUMMARY: Plain and quoted scalars, whose line breaks are folded.
import LogoSyntax.Yaml.Lexeme

/-!
# Plain and quoted scalars

A plain or quoted scalar may run over several lines. Spaces around a break are
dropped, a single break becomes a space and each further one stays. A scalar in
double quotes has escapes, and an escaped break disappears.

`Folding` is what has been read of such a scalar. Spaces and breaks are held
back until the next character shows that they do not end the scalar.
-/

namespace LogoSyntax.Yaml

/-! ## Folding -/

/-- What has been read of a scalar. -/
structure Folding where
  /-- The characters so far, in reverse. -/
  text : List Char
  /-- Spaces and tabs since then, in reverse, as long as no break was read. -/
  blanks : List Char
  /-- Whether a break was read since then. -/
  broken : Bool
  /-- The first of the breaks, unless it was escaped. -/
  first : List Char
  /-- The breaks after the first, in reverse. -/
  more : List Char
deriving DecidableEq, Repr

namespace Folding

/-- Nothing was read yet. -/
def empty : Folding :=
  ⟨[], [], false, [], []⟩

/-- What was held back becomes part of the text. -/
def join (f : Folding) : Folding :=
  let held :=
    if !f.broken then f.blanks
    else if f.first = ['\n'] then (if f.more.isEmpty then [' '] else f.more)
    else f.more ++ f.first
  ⟨held ++ f.text, [], false, [], []⟩

/-- Adds a character that is neither blank nor a break. -/
def push (f : Folding) (c : Char) : Folding :=
  { f.join with text := c :: f.join.text }

/-- Holds back a space or tab; behind a break it is dropped. -/
def blank (f : Folding) (c : Char) : Folding :=
  if f.broken then f else { f with blanks := c :: f.blanks }

/-- Holds back a break. -/
def lineBreak (f : Folding) (c : Char) : Folding :=
  if f.broken then { f with more := c :: f.more }
  else { f with blanks := [], broken := true, first := [c] }

/-- Drops an escaped break and the spaces behind it. -/
def escapedBreak (f : Folding) : Folding :=
  { f.join with broken := true }

end Folding

/-! ## Plain scalars -/

/-- Where a plain scalar ends, and whether a break was read behind it. -/
structure PlainEnd where
  folding : Folding
  stop : Mark
  input : Input
deriving DecidableEq, Repr

/-- Whether a colon or, between brackets or braces, an indicator ends a plain scalar. -/
def endsPlain (inFlow : Bool) (c : Char) (after : List Char) : Bool :=
  (c = ':' && startsWithSeparator after)
    || (inFlow && c ∈ [',', '[', ']', '\x7b', '\x7d'])

/-- Reads on in a plain scalar that began at `start`. `indent` is the least column
    of its further lines in block context, `stop` the mark behind its last
    character so far. -/
def scanPlainFrom (inFlow : Bool) (indent : Int) (start stop : Mark) (f : Folding) (i : Input) :
    Except Fault PlainEnd :=
  match _h : i.chars with
  | [] => .ok ⟨f, stop, i⟩
  | c :: cs =>
    match _hb : takeBreak? (c :: cs) with
    | some (d, n, rest) =>
      scanPlainFrom inFlow indent start stop (f.lineBreak d) ⟨rest, i.mark.down n⟩
    | none =>
      if isSpaceOrTab c then
        if f.broken && (i.mark.column : Int) < indent && c = '\t' then
          .error (.during "while scanning a plain scalar" start
            "found a tab character that violates indentation" i.mark)
        else scanPlainFrom inFlow indent start stop (f.blank c) ⟨cs, i.mark.past c⟩
      else if f.broken && !inFlow && (i.mark.column : Int) < indent then .ok ⟨f, stop, i⟩
      else if (f.broken && i.atBorder) || (c = '#' && (f.broken || !f.blanks.isEmpty)) then
        .ok ⟨f, stop, i⟩
      else if inFlow && c = ':' && cs.head?.any (· ∈ [',', '?', '[', ']', '\x7b', '\x7d']) then
        .error (.during "while scanning a plain scalar" start "found unexpected ':'" i.mark)
      else if endsPlain inFlow c cs then .ok ⟨f, stop, i⟩
      else
        scanPlainFrom inFlow indent start (i.mark.past c) (f.push c) ⟨cs, i.mark.past c⟩
termination_by i.chars.length
decreasing_by
  · rw [_h]
    exact length_of_takeBreak? _hb
  · simp [_h]
  · simp [_h]

/-- A plain scalar, and whether it ends behind a break. -/
def scanPlain (inFlow : Bool) (indent : Int) (i : Input) :
    Except Fault (Lexeme × Bool × Input) :=
  match scanPlainFrom inFlow (indent + 1) i.mark i.mark .empty i with
  | .error e => .error e
  | .ok r =>
    let text := String.ofList r.folding.text.reverse
    .ok (⟨.scalar text .plain, i.mark, r.stop⟩, r.folding.broken, r.input)

/-! ## Quoted scalars -/

/-- The character that a one-letter escape stands for. -/
def escapedChar? (c : Char) : Option Char :=
  match c with
  | '0' => some '\x00'
  | 'a' => some '\x07'
  | 'b' => some '\x08'
  | 't' => some '\t'
  | '\t' => some '\t'
  | 'n' => some '\n'
  | 'v' => some '\x0b'
  | 'f' => some '\x0c'
  | 'r' => some '\r'
  | 'e' => some '\x1b'
  | ' ' => some ' '
  | '"' => some '"'
  | '/' => some '/'
  | '\\' => some '\\'
  | 'N' => some '\u0085'
  | '_' => some '\u00A0'
  | 'L' => some '\u2028'
  | 'P' => some '\u2029'
  | _ => none

/-- The number of hexadecimal digits behind the letter of an escape. -/
def escapeWidth? (c : Char) : Option Nat :=
  match c with
  | 'x' => some 2
  | 'u' => some 4
  | 'U' => some 8
  | _ => none

/-- An escape at the front of an input: its character and its length behind the
    backslash. -/
def scanEscape (start : Mark) (i : Input) : Except Fault (Char × Nat) :=
  let fail := fun problem mark => Fault.during "while parsing a quoted scalar" start problem mark
  match i.chars with
  | _ :: c :: cs =>
    match escapedChar? c, escapeWidth? c with
    | some d, _ => .ok (d, 1)
    | none, some width =>
      let ds := cs.take width
      match (if ds.length = width then Meaning.readDigits? 16 ds else none) with
      | none => .error (fail "did not find expected hexadecimal number" (i.skip 2).mark)
      | some n =>
        if n.isValidChar then .ok (Char.ofNat n, width + 1)
        else .error (fail "found invalid Unicode character escape code" (i.skip 2).mark)
    | none, none => .error (fail "found unknown escape character" i.mark)
  | _ => .error (fail "found unknown escape character" i.mark)

/-- Reads on in a quoted scalar that began at `start`, up to the quote that ends it. -/
def scanQuotedFrom (quote : Char) (start : Mark) (f : Folding) (i : Input) :
    Except Fault (Folding × Input) :=
  let fail := fun problem => Fault.during "while scanning a quoted scalar" start problem i.mark
  match _h : i.chars with
  | [] => .error (fail "found unexpected end of stream")
  | c :: cs =>
    match _hb : takeBreak? (c :: cs) with
    | some (d, n, rest) => scanQuotedFrom quote start (f.lineBreak d) ⟨rest, i.mark.down n⟩
    | none =>
      if isSpaceOrTab c then scanQuotedFrom quote start (f.blank c) ⟨cs, i.mark.past c⟩
      else if f.broken && i.atBorder then .error (fail "found unexpected document indicator")
      else if c = quote then
        if quote = '\'' && cs.head? = some '\'' then
          scanQuotedFrom quote start (f.push c) (i.skip 2)
        else .ok (f.join, ⟨cs, i.mark.past c⟩)
      else if quote = '"' && c = '\\' then
        match _he : takeBreak? cs with
        | some (_, n, rest) =>
          scanQuotedFrom quote start f.escapedBreak ⟨rest, (i.mark.past c).down n⟩
        | none =>
          match scanEscape start i with
          | .error e => .error e
          | .ok (d, n) =>
            scanQuotedFrom quote start (f.push d) (Input.skip ⟨cs, i.mark.past c⟩ n)
      else scanQuotedFrom quote start (f.push c) ⟨cs, i.mark.past c⟩
termination_by i.chars.length
decreasing_by
  · rw [_h]
    exact length_of_takeBreak? _hb
  · simp [_h]
  · simp only [Input.skip, _h, List.length_drop, List.length_cons]
    omega
  · rw [_h]
    exact Nat.lt_succ_of_lt (length_of_takeBreak? _he)
  · simp only [Input.skip, _h, List.length_drop, List.length_cons]
    omega
  · simp [_h]

/-- A scalar in quotes. -/
def scanQuoted (quote : Char) (style : ScalarStyle) (i : Input) : Scanned :=
  match scanQuotedFrom quote i.mark .empty (i.skip 1) with
  | .error e => .error e
  | .ok (f, rest) =>
    .ok (⟨.scalar (String.ofList f.text.reverse) style, i.mark, rest.mark⟩, rest)

end LogoSyntax.Yaml

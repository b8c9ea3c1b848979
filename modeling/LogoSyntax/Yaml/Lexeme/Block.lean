-- SUMMARY: Literal and folded block scalars.
import LogoSyntax.Yaml.Lexeme

/-!
# Block scalars

A block scalar is a block of indented lines. In a literal scalar the breaks stay
as they are, in a folded one a single break between two lines that do not begin
with a blank becomes a space. Its header can give the indentation and say what
becomes of the breaks at its end: all but one are dropped, all are, or none.
-/

namespace LogoSyntax.Yaml

/-- What becomes of the breaks at the end of a block scalar. -/
inductive Chomping where
  | clip | strip | keep
deriving DecidableEq, Repr

/-! ## Header -/

/-- The treatment of final breaks that a character asks for. -/
def Chomping.ofChar? (c : Char) : Option Chomping :=
  match c with
  | '+' => some keep
  | '-' => some strip
  | _ => none

/-- An indentation of one digit, if there is one. It may not be zero. -/
def scanIncrement (start : Mark) (i : Input) : Except Fault (Nat × Input) :=
  match i.chars with
  | c :: _ =>
    if !Decimal.isDigit c then .ok (0, i)
    else if c = '0' then
      .error (.during "while scanning a block scalar" start
        "found an indentation indicator equal to 0" i.mark)
    else .ok (Decimal.ofDigits [c], i.skip 1)
  | [] => .ok (0, i)

/-- The header of a block scalar: the treatment of final breaks and the
    indentation, in either order. -/
def scanHeader (start : Mark) (i : Input) : Except Fault (Chomping × Nat × Input) :=
  match i.chars.head?.bind Chomping.ofChar? with
  | some chomping =>
    match scanIncrement start (i.skip 1) with
    | .error e => .error e
    | .ok (increment, rest) => .ok (chomping, increment, rest)
  | none =>
    match scanIncrement start i with
    | .error e => .error e
    | .ok (0, rest) => .ok (.clip, 0, rest)
    | .ok (increment, rest) =>
      match rest.chars.head?.bind Chomping.ofChar? with
      | some chomping => .ok (chomping, increment, rest.skip 1)
      | none => .ok (.clip, increment, rest)

/-! ## Indentation -/

/-- What stands between two lines of a block scalar that are not empty. -/
structure BlockGap where
  /-- The breaks, in order. -/
  breaks : List Char
  /-- The greatest column that spaces lead to. -/
  maxColumn : Nat
  /-- The mark behind the last break. -/
  stop : Mark
  input : Input
deriving DecidableEq, Repr

/-- Reads the empty lines and the spaces in front of the next line. Spaces are
    read up to the column `indent`, or all of them if it is not known yet. -/
def scanBlockGap (start : Mark) (indent : Option Nat) (g : BlockGap) :
    Except Fault BlockGap :=
  let mark := g.input.mark
  let maxColumn := max g.maxColumn mark.column
  let within := indent.all (mark.column < ·)
  match _h : g.input.chars with
  | [] => .ok { g with maxColumn }
  | c :: cs =>
    if within && c = ' ' then
      scanBlockGap start indent { g with maxColumn, input := ⟨cs, mark.past c⟩ }
    else if within && c = '\t' then
      .error (.during "while scanning a block scalar" start
        "found a tab character where an indentation space is expected" mark)
    else
      match _hb : takeBreak? (c :: cs) with
      | some (d, n, rest) =>
        scanBlockGap start indent
          { breaks := g.breaks ++ [d], maxColumn, stop := mark.down n,
            input := ⟨rest, mark.down n⟩ }
      | none => .ok { g with maxColumn }
termination_by g.input.chars.length
decreasing_by
  · simp [_h]
  · rw [_h]
    exact length_of_takeBreak? _hb

/-- The gap that begins with an input. -/
def BlockGap.ofInput (i : Input) : BlockGap :=
  ⟨[], 0, i.mark, i⟩

/-! ## Lines -/

/-- What has been read of a block scalar. -/
structure BlockText where
  /-- The characters so far, in reverse. -/
  text : List Char
  /-- The break behind them. -/
  lineBreak : List Char
  /-- Whether the last line began with a blank. -/
  blankLine : Bool
deriving DecidableEq, Repr

/-- The break between two lines: in a folded scalar a space or nothing stands in
    its place when neither line begins with a blank. -/
def BlockText.joint (b : BlockText) (folded : Bool) (breaks : List Char) (blankLine : Bool) :
    List Char :=
  if folded && b.lineBreak = ['\n'] && !b.blankLine && !blankLine then
    if breaks.isEmpty then [' '] else breaks
  else b.lineBreak ++ breaks

/-- Reads the lines of a block scalar that begin in the column `indent`. -/
def scanBlockLines (folded : Bool) (start : Mark) (indent : Nat) (b : BlockText) (g : BlockGap) :
    Except Fault (BlockText × BlockGap) :=
  if g.input.mark.column ≠ indent || g.input.chars.isEmpty then .ok (b, g)
  else
    let blankLine := g.input.chars.head?.any isSpaceOrTab
    let (line, rest) := g.input.span (fun c => !isBreak c)
    let text := line.reverse ++ (b.joint folded g.breaks blankLine).reverse ++ b.text
    let lineBreak := (takeBreak? rest.chars).elim [] fun (d, _) => [d]
    match scanBlockGap start (some indent) (.ofInput rest.skipBreak) with
    | .error e => .error e
    | .ok next =>
      if _h : next.input.chars.length < g.input.chars.length then
        scanBlockLines folded start indent ⟨text, lineBreak, blankLine⟩ next
      else .ok (⟨text, lineBreak, blankLine⟩, next)
termination_by g.input.chars.length

/-! ## Block scalars -/

/-- The breaks at the end of a block scalar that stay. -/
def Chomping.apply (chomping : Chomping) (lineBreak breaks : List Char) : List Char :=
  match chomping with
  | clip => lineBreak
  | strip => []
  | keep => lineBreak ++ breaks

/-- A block scalar in a collection that is indented to the column `parent`. -/
def scanBlock (folded : Bool) (parent : Int) (i : Input) : Scanned :=
  match scanHeader i.mark (i.skip 1) with
  | .error e => .error e
  | .ok (chomping, increment, rest) =>
    let rest := (rest.skipWhile isSpaceOrTab).skipComment
    if !startsWithBreak rest.chars then
      .error (.during "while scanning a block scalar" i.mark
        "did not find expected comment or line break" rest.mark)
    else
      let given := if increment = 0 then none else some (parent.toNat + increment)
      match scanBlockGap i.mark given (.ofInput rest.skipBreak) with
      | .error e => .error e
      | .ok g =>
        let indent := given.getD (max g.maxColumn (max (parent + 1).toNat 1))
        match scanBlockLines folded i.mark indent ⟨[], [], false⟩ g with
        | .error e => .error e
        | .ok (b, g) =>
          let text := b.text.reverse ++ chomping.apply b.lineBreak g.breaks
          let style := if folded then .folded else .literal
          .ok (⟨.scalar (String.ofList text) style, i.mark, g.stop⟩, g.input)

end LogoSyntax.Yaml

-- SUMMARY: Positions in a YAML text, faults at them, and the text in front of a position.
import LogoSyntax.Yaml.Style

/-!
# Input

A mark counts bytes of UTF-8, lines and columns from zero; each character takes
one column. An input is the rest of a text together with the mark of its first
character. Line breaks of every kind move a mark to the next line, and a carriage
return together with a line feed is one break.

A text comes in pieces. A character that may not stand in it is a fault as soon
as its piece is needed, whatever stands in front of it there.
-/

namespace LogoSyntax.Yaml

/-- A position in a text, counted from zero. -/
structure Mark where
  index : Nat
  line : Nat
  column : Nat
deriving DecidableEq, Repr

namespace Mark

/-- The beginning of a text. -/
def start : Mark :=
  ⟨0, 0, 0⟩

/-- Whether the mark is on the first character of the first line. -/
def atOrigin (m : Mark) : Bool :=
  m.line = 0 && m.column = 0

/-- The mark behind a character of the line. -/
def past (m : Mark) (c : Char) : Mark :=
  ⟨m.index + c.utf8Size, m.line, m.column + 1⟩

/-- The mark behind some characters of the line. -/
def pastAll (m : Mark) (cs : List Char) : Mark :=
  cs.foldl past m

/-- The beginning of the next line, behind a break of some bytes. -/
def down (m : Mark) (bytes : Nat) : Mark :=
  ⟨m.index + bytes, m.line + 1, 0⟩

/-- The place in words, with lines and columns counted from one. -/
def message (m : Mark) : String :=
  if m.atOrigin then "position " ++ toString m.index
  else "line " ++ toString (m.line + 1) ++ " column " ++ toString (m.column + 1)

end Mark

/-- What is wrong with a text and where, and what was being read at the time. -/
structure Fault where
  problem : String
  mark : Mark
  /-- The place in bytes, for a fault that was found when a piece came in. -/
  offset : Nat
  context : Option (String × Mark)
deriving DecidableEq, Repr

namespace Fault

/-- A fault at a mark. -/
def plain (problem : String) (mark : Mark) : Fault :=
  ⟨problem, mark, 0, none⟩

/-- A fault at a mark, found while something was being read that began earlier. -/
def during (context : String) (start : Mark) (problem : String) (mark : Mark) : Fault :=
  ⟨problem, mark, 0, some (context, start)⟩

/-- The fault in words. A place is left out when it is the origin, and the place
    of the context also when it is that of the problem. -/
def message (f : Fault) : String :=
  f.problem
    ++ (if !f.mark.atOrigin then " at " ++ f.mark.message
      else if f.offset ≠ 0 then " at position " ++ toString f.offset
      else "")
    ++ (match f.context with
      | none => ""
      | some (context, start) =>
        ", " ++ context
          ++ (if !start.atOrigin && !(start.line = f.mark.line && start.column = f.mark.column)
            then " at " ++ start.message else ""))

end Fault

/-- The rest of a text and the mark of its first character. -/
structure Input where
  chars : List Char
  mark : Mark
deriving DecidableEq, Repr

/-- A break at the front of some characters: its normal form, its size in bytes and
    the rest. -/
def takeBreak? : List Char → Option (Char × Nat × List Char)
  | '\r' :: '\n' :: cs => some ('\n', 2, cs)
  | c :: cs =>
    if c = '\u2028' ∨ c = '\u2029' then some (c, c.utf8Size, cs)
    else if isBreak c then some ('\n', c.utf8Size, cs)
    else none
  | [] => none

theorem length_of_takeBreak? {cs rest : List Char} {c : Char} {n : Nat}
    (h : takeBreak? cs = some (c, n, rest)) : rest.length < cs.length := by
  unfold takeBreak? at h
  split at h
  · simp only [Option.some.injEq, Prod.mk.injEq] at h
    simp only [← h.2.2, List.length_cons]
    omega
  · split at h
    · simp only [Option.some.injEq, Prod.mk.injEq] at h
      simp [← h.2.2]
    · split at h
      · simp only [Option.some.injEq, Prod.mk.injEq] at h
        simp [← h.2.2]
      · cases h
  · cases h

/-- Whether the next character, or the end of the text, ends a line. -/
def startsWithBreak : List Char → Bool
  | [] => true
  | c :: _ => isBreak c

namespace Input

/-- The input at the beginning of a text. -/
def ofText (cs : List Char) : Input :=
  ⟨cs, Mark.start⟩

/-- The input behind some characters of the line. -/
def skip (i : Input) (n : Nat) : Input :=
  ⟨i.chars.drop n, i.mark.pastAll (i.chars.take n)⟩

/-- The characters of the line that satisfy a condition, and the input behind them. -/
def span (p : Char → Bool) (i : Input) : List Char × Input :=
  let taken := i.chars.takeWhile p
  (taken, ⟨i.chars.dropWhile p, i.mark.pastAll taken⟩)

/-- The input behind the characters of the line that satisfy a condition. -/
def skipWhile (p : Char → Bool) (i : Input) : Input :=
  (i.span p).2

/-- The input behind a comment, if there is one. -/
def skipComment (i : Input) : Input :=
  if i.chars.head? = some '#' then i.skipWhile (fun c => !isBreak c) else i

/-- The input behind a break, if there is one. -/
def skipBreak (i : Input) : Input :=
  match takeBreak? i.chars with
  | some (_, n, cs) => ⟨cs, i.mark.down n⟩
  | none => i

/-- Whether the next character is a given one. -/
def at? (i : Input) (c : Char) : Bool :=
  i.chars.head? == some c

/-- Whether three characters and a separator stand at the beginning of the line. -/
def atBorderOf (i : Input) (c : Char) : Bool :=
  i.mark.column = 0 && [c, c, c].isPrefixOf i.chars && startsWithSeparator (i.chars.drop 3)

/-- Whether the border of a document stands at the beginning of the line. -/
def atBorder (i : Input) : Bool :=
  i.atBorderOf '-' || i.atBorderOf '.'

end Input

/-! ## Characters that may not stand in a text -/

/-- The characters that may stand in a text. -/
def isAllowed (c : Char) : Bool :=
  let n := c.toNat
  n = 0x09 || n = 0x0A || n = 0x0D || (0x20 ≤ n && n ≤ 0x7E) || n = 0x85
    || (0xA0 ≤ n && n ≤ 0xFFFD) || 0x10000 ≤ n

/-- The number of bytes of a piece. A character that does not fit into it any more
    begins the next one. -/
def pieceSize : Nat :=
  16384

/-- The first character of a text that may not stand in it. -/
structure Forbidden where
  /-- The index where its piece begins. -/
  piece : Nat
  /-- Its own index. -/
  index : Nat
deriving DecidableEq, Repr

/-- The fault of a forbidden character. -/
def Forbidden.fault (f : Forbidden) : Fault :=
  ⟨"control characters are not allowed", Mark.start, f.index, none⟩

/-- The first forbidden character in a text at `index`, inside the piece at `piece`. -/
def forbiddenFrom? (piece index : Nat) : List Char → Option Forbidden
  | [] => none
  | c :: cs =>
    let stop := index + c.utf8Size
    let piece := if piece + pieceSize < stop then index else piece
    if isAllowed c then forbiddenFrom? piece stop cs else some ⟨piece, index⟩

/-- The fault that is found when the character at an index is needed. -/
def forbiddenAt? (forbidden : Option Forbidden) (index : Nat) : Option Fault :=
  forbidden.bind fun f => if f.piece ≤ index then some f.fault else none

end LogoSyntax.Yaml

-- SUMMARY: The cursor over a source: one token at a time, with positions, and what reading logs.
import LogoSyntax.Log
import LogoSyntax.Text.Component
import LogoSyntax.Text.Quoted
import LogoSyntax.Token.Shape

/-!
# Cursor

A cursor stands in front of a component of a source, or at the end of a line.
`token` is the token it stands in front of and `advance` moves it past that
token. A component that no shape fits and the end of the source are not
matched, and the cursor never moves past either of them, so it gives the same
token again.

The measure `size` counts the tokens in front of the cursor that it can be
moved past. Reading ends because `size_advance_lt` says that every step past a
matched token makes it smaller.
-/

namespace LogoSyntax

/-! ## Lines -/

/-- A line of a source: its components, and the column just past its last character. -/
structure Line where
  components : List Component
  endCol : Nat
deriving DecidableEq, Repr

/-- The line with these characters. -/
def Line.ofChars (cs : List Char) : Line :=
  { components := LogoSyntax.components cs, endCol := cs.length + 1 }

/-- The lines of a source, without the blank ends of the source. -/
def sourceLines (source : String) : List Line :=
  (Text.lines (Text.trim source.toList)).map Line.ofChars

/-! ## The cursor -/

/-- A position in a source. -/
structure Cursor where
  /-- The number of the current line, from one. -/
  line : Nat
  /-- The column just past the last character of the current line. -/
  endCol : Nat
  /-- The components of the current line that are still to be read. -/
  ahead : List Component
  /-- The lines after the current one. -/
  later : List Line
deriving DecidableEq, Repr

namespace Cursor

/-- The cursor in front of the first of some lines. -/
def ofLines : List Line → Cursor
  | [] => ⟨1, 1, [], []⟩
  | first :: rest => ⟨1, first.endCol, first.components, rest⟩

/-- The cursor at the beginning of a source. -/
def ofSource (source : String) : Cursor :=
  ofLines (sourceLines source)

/-- The token of a component on a line. -/
def componentToken (line : Nat) (w : Component) : Token :=
  match classify w.chars with
  | some (kind, value) => { kind, raw := w.text, value, matched := true, line, col := w.col }
  | none =>
    { kind := .notFound, raw := w.text, value := none, matched := false, line, col := w.col }

/-- The token that the cursor stands in front of. -/
def token (c : Cursor) : Token :=
  match c.ahead, c.later with
  | w :: _, _ => componentToken c.line w
  | [], _ :: _ => Token.marker .endOfLine true c.line c.endCol
  | [], [] => Token.marker .noMore false c.line c.endCol

/-- The cursor past the token it stands in front of, if that token is matched. -/
def advance (c : Cursor) : Cursor :=
  match c.ahead, c.later with
  | w :: ws, _ => if (classify w.chars).isSome then { c with ahead := ws } else c
  | [], next :: rest => ⟨c.line + 1, next.endCol, next.components, rest⟩
  | [], [] => c

/-- The line and column of the next component, or of the end of the line. -/
def position (c : Cursor) : Nat × Nat :=
  match c.ahead with
  | w :: _ => (c.line, w.col)
  | [] => (c.line, c.endCol)

/-- What moving past the token in front of the cursor logs, or failing to. -/
def record? (c : Cursor) : Option Log.Record :=
  match c.ahead, c.later with
  | w :: _, _ =>
    let place := toString c.line ++ ":" ++ toString w.col
    match classify w.chars with
    | some (kind, _) =>
      some ⟨.trace, .lexer, place ++ " " ++ kind.name ++ " " ++ Text.quoted w.text⟩
    | none => some ⟨.debug, .lexer, place ++ " no pattern matches " ++ Text.quoted w.text⟩
  | [], next :: _ =>
    some ⟨.debug, .lexer,
      "line " ++ toString (c.line + 1) ++ ": " ++ toString next.components.length
        ++ " component(s)"⟩
  | [], [] => none

/-! ## The measure -/

/-- The number of tokens that some lines and the borders before them hold. -/
def linesSize : List Line → Nat
  | [] => 0
  | line :: rest => line.components.length + 1 + linesSize rest

/-- The number of tokens in front of the cursor, the end of the source aside. -/
def size (c : Cursor) : Nat :=
  c.ahead.length + linesSize c.later

theorem matched_componentToken (line : Nat) (w : Component) :
    (componentToken line w).matched = (classify w.chars).isSome := by
  unfold componentToken
  split <;> simp_all

/-- A step past a matched token leaves fewer tokens in front of the cursor. -/
theorem size_advance_lt {c : Cursor} (h : c.token.matched = true) : c.advance.size < c.size := by
  rcases c with ⟨line, endCol, ahead, later⟩
  cases ahead with
  | cons w ws =>
    have hw : (classify w.chars).isSome = true := by
      rw [← matched_componentToken line w]
      exact h
    simp [advance, hw, size]
  | nil =>
    cases later with
    | nil => simp [token, Token.marker] at h
    | cons next rest =>
      simp only [advance, size, linesSize, List.length_nil]
      omega

/-- The cursor stays in front of a token that is not matched. -/
theorem advance_of_not_matched {c : Cursor} (h : c.token.matched = false) : c.advance = c := by
  rcases c with ⟨line, endCol, ahead, later⟩
  cases ahead with
  | cons w ws =>
    have hw : (classify w.chars).isSome = false := by
      rw [← matched_componentToken line w]
      exact h
    simp [advance, hw]
  | nil =>
    cases later with
    | nil => rfl
    | cons next rest => simp [token, Token.marker] at h

/-! ## Reading to the end -/

/-- The cursors that reading passes through, up to the first in front of a
    token that is not matched. -/
def visited (c : Cursor) : List Cursor :=
  if _h : c.token.matched = true then c :: c.advance.visited else [c]
termination_by c.size
decreasing_by exact size_advance_lt _h

/-- The cursor in front of the first token that is not matched. -/
def final (c : Cursor) : Cursor :=
  if _h : c.token.matched = true then c.advance.final else c
termination_by c.size
decreasing_by exact size_advance_lt _h

/-- The tokens up to and including the first that is not matched. -/
def tokens (c : Cursor) : List Token :=
  c.visited.map token

/-- The matched tokens in front of the first that is not matched. -/
def matchedTokens (c : Cursor) : List Token :=
  c.tokens.filter (·.matched)

/-- The log behind reading to the end, where every move is logged when it is made. -/
def logTo (c : Cursor) (log : Log.Writer) : Log.Writer :=
  let log := log.writeAll c.record?.toList
  if _h : c.token.matched = true then c.advance.logTo log else log
termination_by c.size
decreasing_by exact size_advance_lt _h

end Cursor

/-- The tokens of a source, up to and including the first that is not matched. -/
def tokenize (source : String) : List Token :=
  (Cursor.ofSource source).tokens

end LogoSyntax

-- SUMMARY: Sequences of requests to one source: tokens first, then programs.
import LogoSyntax.Grammar.Block

/-!
# Sessions

A session reads one source by requests. As long as no program was asked for,
the requests for tokens and for the position share one cursor. The first
request for a program hands the cursor to a reader, and from then on only
programs can be asked for. Each of them is parsed from where the last one
stopped.
-/

namespace LogoSyntax

namespace Cursor

/-- The token in front of the cursor, and the cursor past it if it is matched. -/
def next (c : Cursor) : Token × Cursor :=
  (c.token, c.advance)

/-- Like `next`, but gives a token only if it is matched. -/
def nextMatched (c : Cursor) : Option Token × Cursor :=
  (if c.token.matched then some c.token else none, c.advance)

/-- The matched tokens up to the first that is not matched, and the cursor in
    front of that one. -/
def collect (c : Cursor) : List Token × Cursor :=
  (c.matchedTokens, c.final)

/-- The tokens up to and including the first that is not matched, and the cursor
    in front of that one. -/
def tokenize (c : Cursor) : List Token × Cursor :=
  (c.tokens, c.final)

end Cursor

/-- A source that is being read. -/
inductive Session where
  | tokens (c : Cursor)
  | programs (r : Reader)
deriving DecidableEq, Repr

namespace Session

/-- What a session can be asked for. -/
inductive Request where
  | nextToken | nextMatched | collect | tokenize | position | parse
deriving DecidableEq, Repr

/-- The answer to a request. -/
inductive Reply where
  | token (t : Token)
  | matched (t : Option Token)
  | tokens (ts : List Token)
  | position (line col : Nat)
  | program (result : Except Halt Program)
  /-- The session gives programs only. -/
  | moved

/-- The session at the beginning of a source. -/
def ofSource (source : String) : Session :=
  tokens (Cursor.ofSource source)

/-- A reply and the cursor, as a session. -/
def onCursor {α : Type} (reply : α → Reply) (result : α × Cursor) : Reply × Session :=
  (reply result.1, tokens result.2)

/-- A parsed program and the reader behind it, as a session. -/
def onReader (result : Except Halt Program × Reader) : Reply × Session :=
  (.program result.1, programs result.2)

/-- Answers a request. -/
def answer : Session → Request → Reply × Session
  | tokens c, .nextToken => onCursor .token c.next
  | tokens c, .nextMatched => onCursor .matched c.nextMatched
  | tokens c, .collect => onCursor .tokens c.collect
  | tokens c, .tokenize => onCursor .tokens c.tokenize
  | tokens c, .position => (.position c.position.1 c.position.2, tokens c)
  | tokens c, .parse => onReader (Reader.ofCursor c).parse
  | programs r, .parse => onReader r.parse
  | programs r, _ => (.moved, programs r)

/-- Answers requests one after another. -/
def answerAll (s : Session) : List Request → List Reply
  | [] => []
  | request :: requests =>
    let (reply, s) := s.answer request
    reply :: s.answerAll requests

end Session

end LogoSyntax

-- SUMMARY: Reading the tokens that matter to the grammar, with lookahead.
import LogoSyntax.Cursor
import LogoSyntax.SyntaxError

/-!
# Reader

The grammar does not see the ends of lines. A reader drops them and holds the
tokens that were looked at but not consumed in a queue. Looking ahead stops at
a token that is not matched, because the cursor would only give it again.

`Parse` is the type of an action on a reader. An action that fails leaves the
reader as it is at that point, so that a caller can go on in front of the token
that did not fit. Running out of fuel is a failure of its own.
-/

namespace LogoSyntax

/-- A cursor with the tokens that were looked at but not consumed. -/
structure Reader where
  cursor : Cursor
  /-- The tokens between the grammar and the cursor, the next one first. -/
  queue : List Token
  /-- The log that is written to. -/
  log : Log.Writer
deriving DecidableEq, Repr

namespace Reader

/-- The reader at a cursor, with a log that lets every record through. -/
def ofCursor (c : Cursor) : Reader :=
  ⟨c, [], .ofFilter (.upTo .trace)⟩

/-- The reader with another log. -/
def withLog (r : Reader) (log : Log.Writer) : Reader :=
  { r with log }

/-- Whether the queue reaches beyond `n` tokens, or to a token that is not matched. -/
def reaches (r : Reader) (n : Nat) : Bool :=
  n < r.queue.length ||
    match r.queue.getLast? with
    | some t => !t.matched
    | none => false

/-- Moves the cursor by one token, which joins the queue unless it is the end of a line. -/
def pull (r : Reader) : Reader :=
  { cursor := r.cursor.advance
    queue := if r.cursor.token.kind = .endOfLine then r.queue else r.queue ++ [r.cursor.token]
    log := r.log.writeAll r.cursor.record?.toList }

/-- Moves the cursor until the queue reaches beyond `n` tokens, or to a token
    that is not matched. -/
def fill (r : Reader) (n : Nat) : Reader :=
  if r.reaches n then r
  else if _h : r.cursor.token.matched = true then r.pull.fill n else r.pull
termination_by r.cursor.size
decreasing_by exact Cursor.size_advance_lt _h

/-- The token `n` places ahead in a queue, or the last one if there are fewer. -/
def ahead (r : Reader) (n : Nat) : Token :=
  (r.queue[min n (r.queue.length - 1)]?).getD r.cursor.token

/-- Emits a record. -/
def record (r : Reader) (record : Log.Record) : Reader :=
  { r with log := r.log.write record }

end Reader

/-! ## Actions -/

/-- Why an action on a reader stops. -/
inductive Halt where
  | syntaxError (e : SyntaxError)
  /-- The action was not given enough fuel to finish. -/
  | outOfFuel
deriving DecidableEq, Repr

/-- An action on a reader. -/
abbrev Parse := EStateM Halt Reader

namespace Parse

/-- The token `n` places ahead, or the last one if there are fewer. -/
def peekNth (n : Nat) : Parse Token := fun r =>
  let r := r.fill n
  .ok (r.ahead n) r

/-- The next token. -/
def peek : Parse Token :=
  peekNth 0

/-- Consumes the next token. -/
def advance : Parse Token := fun r =>
  let r := r.fill 0
  match r.queue with
  | t :: rest => .ok t { r with queue := rest }
  | [] => .ok r.cursor.token r.pull

/-- Whether the next token is of one kind. -/
def check (kind : TokenKind) : Parse Bool := do
  return (← peek).kind == kind

/-- Emits a record. -/
def record (record : Log.Record) : Parse Unit := fun r =>
  .ok () (r.record record)

/-- Stops in front of the next token, which does not fit. -/
def unexpected {α : Type} (production : String) (expected : Expected) : Parse α := do
  let e := SyntaxError.ofToken production expected (← peek)
  record ⟨.debug, .grammar, e.message⟩
  throw (.syntaxError e)

/-- Consumes the next token, which has to be of one kind. -/
def expect (kind : TokenKind) (production : String) : Parse Token := do
  if ← check kind then advance else unexpected production (.token kind)

/-- Stops for want of fuel. -/
def outOfFuel {α : Type} : Parse α :=
  throw .outOfFuel

end Parse

end LogoSyntax

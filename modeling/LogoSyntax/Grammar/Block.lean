-- SUMMARY: Parsing blocks, bodies and whole programs.
import LogoSyntax.Grammar.Item

/-!
# Blocks and programs

```text
Program = Block*
Block   = Control | Statement
Control = RUN Body | IF Expr Body | IFELSE Expr Body Body | REPEAT Expr Body
        | DOWHILE Body Expr | WHILE Expr Body | DOUNTIL Body Expr | UNTIL Expr Body
        | OUTPUT Expr | STOP | BYE
Body    = '[' Block* ']'
```

The ends of lines are skipped wherever a token is expected. Every function here
takes fuel, and `Reader.fuel` gives a program as much as its tokens can use up.
-/

namespace LogoSyntax.Grammar

open Parse

mutual

/-- A block. -/
def block : Nat → Parse Block
  | 0 => outOfFuel
  | fuel + 1 => do
    match (← peek).kind with
    | .keyword k =>
      let t ← advance
      record ⟨.trace, .grammar,
        toString t.line ++ ":" ++ toString t.col ++ " " ++ t.kind.name⟩
      control k fuel
    | .procedure | .left .parenthesis => return .call (← statement fuel)
    | _ => unexpected "block" (.production "block")

/-- What follows a keyword. -/
def control (k : Keyword) : Nat → Parse Block
  | 0 => outOfFuel
  | fuel + 1 => do
    match k with
    | .run => return .run (← body fuel)
    | .ifTrue => return .ifTrue (← expr fuel) (← body fuel)
    | .ifElse => return .ifElse (← expr fuel) (← body fuel) (← body fuel)
    | .repeatTimes => return .repeatTimes (← expr fuel) (← body fuel)
    | .doWhile => return .doWhile (← body fuel) (← expr fuel)
    | .whileDo => return .whileDo (← expr fuel) (← body fuel)
    | .doUntil => return .doUntil (← body fuel) (← expr fuel)
    | .untilDo => return .untilDo (← expr fuel) (← body fuel)
    | .output => return .output (← expr fuel)
    | .stop => return .stop
    | .bye => return .bye

/-- Blocks in square brackets. -/
def body : Nat → Parse (List Block)
  | 0 => outOfFuel
  | fuel + 1 => do
    let _ ← expect (.left .bracket) "body"
    blocksUntilBracket fuel

/-- Blocks up to and including the closing bracket. -/
def blocksUntilBracket : Nat → Parse (List Block)
  | 0 => outOfFuel
  | fuel + 1 => do
    if ← check (.right .bracket) then
      let _ ← advance
      return []
    else if ← check .noMore then
      unexpected "body" (.token (.right .bracket))
    else
      let first ← block fuel
      let rest ← blocksUntilBracket fuel
      return first :: rest

end

/-- Blocks up to the end of the source. -/
def blocksUntilEnd : Nat → Parse (List Block)
  | 0 => outOfFuel
  | fuel + 1 => do
    if ← check .noMore then return []
    else
      let first ← block fuel
      let rest ← blocksUntilEnd fuel
      return first :: rest

/-- A program. -/
def program (fuel : Nat) : Parse Program := do
  let blocks ← blocksUntilEnd fuel
  record ⟨.debug, .grammar,
    "parsed " ++ toString blocks.length ++ " top-level block(s)"⟩
  return { blocks }

end LogoSyntax.Grammar

namespace LogoSyntax

/-- Fuel enough to parse a program from what is in front of a reader. -/
def Reader.fuel (r : Reader) : Nat :=
  8 * (r.queue.length + r.cursor.size + 2)

/-- Parses a program and gives the reader as it is afterwards, be it parsed or not. -/
def Reader.parse (r : Reader) : Except Halt Program × Reader :=
  match Grammar.program r.fuel r with
  | .ok p r => (.ok p, r)
  | .error e r => (.error e, r)

/-- Parses a source. -/
def parse (source : String) : Except Halt Program :=
  (Reader.ofCursor (Cursor.ofSource source)).parse.1

/-- The program of a source, if it is one. -/
def parse? (source : String) : Option Program :=
  (parse source).toOption

end LogoSyntax

-- SUMMARY: Parsing items and the statements that pass them to a procedure.
import LogoSyntax.Grammar.Expression

/-!
# Items and statements

```text
Statement = PROCEDURE Item+ | '(' PROCEDURE Item* ')'
Item      = Group | List | Array | WORD | NUMBER | VARIABLE
List      = '[' Item* ']'
Array     = '{' Item* '}'
```

A statement without parentheses takes items as long as the next token can begin
one. A parenthesis in front of a procedure name begins the next statement and
not a group, so two tokens decide.
-/

namespace LogoSyntax.Grammar

open Parse

mutual

/-- An item. -/
def item : Nat → Parse Item
  | 0 => outOfFuel
  | fuel + 1 => do
    match (← peek).kind with
    | .left .parenthesis => return .group (← group fuel)
    | .left .bracket => return .list (← sequence .bracket "list" fuel)
    | .left .brace => return .array (← sequence .brace "array" fuel)
    | .word => return .word (← advance).payload
    | .number => return .number (← advance).payload
    | .variableName => return .variableName (← advance).payload
    | _ => unexpected "item" (.production "item")

/-- Items between a pair of delimiters. -/
def sequence (delimiter : Delimiter) (production : String) : Nat → Parse (List Item)
  | 0 => outOfFuel
  | fuel + 1 => do
    let _ ← expect (.left delimiter) production
    itemsUntil delimiter production fuel

/-- Items up to and including a closing delimiter. -/
def itemsUntil (delimiter : Delimiter) (production : String) : Nat → Parse (List Item)
  | 0 => outOfFuel
  | fuel + 1 => do
    if ← check (.right delimiter) then
      let _ ← advance
      return []
    else if ← check .noMore then
      unexpected production (.token (.right delimiter))
    else
      let first ← item fuel
      let rest ← itemsUntil delimiter production fuel
      return first :: rest

end

/-- Whether the next token can begin an item of a statement without parentheses. -/
def startsItem : Parse Bool := do
  match (← peek).kind with
  | .left .parenthesis => return (← peekNth 1).kind != .procedure
  | .left .bracket | .left .brace | .word | .number | .variableName => return true
  | _ => return false

/-- Items as long as the next token can begin one. -/
def itemsWhile : Nat → Parse (List Item)
  | 0 => outOfFuel
  | fuel + 1 => do
    if ← startsItem then
      let first ← item fuel
      let rest ← itemsWhile fuel
      return first :: rest
    else return []

/-- A procedure name. -/
def procedureName : Parse String := do
  return (← expect .procedure "statement").payload

/-- A call of a procedure. -/
def statement (fuel : Nat) : Parse Statement := do
  if ← check (.left .parenthesis) then
    let _ ← advance
    let procedure ← procedureName
    let items ← itemsUntil .parenthesis "statement" fuel
    return { procedure, items, parenthesized := true }
  else
    let procedure ← procedureName
    let first ← item fuel
    let rest ← itemsWhile fuel
    return { procedure, items := first :: rest, parenthesized := false }

end LogoSyntax.Grammar

-- SUMMARY: Parsing expressions: operands, groups, and chains of operators.
import LogoSyntax.Program
import LogoSyntax.Reader

/-!
# Expressions

```text
Group   = '(' Expr ')'
Expr    = Operand (Op Operand)*
Operand = '-'? (Group | NUMBER | VARIABLE)
```

All operators bind equally strongly and associate to the left. A group leaves
no node in the tree.
-/

namespace LogoSyntax.Grammar

open Parse

mutual

/-- A number, a variable or a group. -/
def primary : Nat → Parse Expr
  | 0 => outOfFuel
  | fuel + 1 => do
    match (← peek).kind with
    | .left .parenthesis => group fuel
    | .number => return .number (← advance).payload
    | .variableName => return .variableName (← advance).payload
    | _ => unexpected "operand" (.production "operand")

/-- An expression in parentheses. -/
def group : Nat → Parse Expr
  | 0 => outOfFuel
  | fuel + 1 => do
    let _ ← expect (.left .parenthesis) "group"
    let e ← expr fuel
    let _ ← expect (.right .parenthesis) "group"
    return e

/-- A primary expression, negated if a minus sign stands in front of it. -/
def operand : Nat → Parse Expr
  | 0 => outOfFuel
  | fuel + 1 => do
    if ← check (.sign .sub) then
      let _ ← advance
      return .negate (← primary fuel)
    else primary fuel

/-- A chain of operands and operators. -/
def expr : Nat → Parse Expr
  | 0 => outOfFuel
  | fuel + 1 => do
    let first ← operand fuel
    operations first fuel

/-- The rest of a chain whose value so far is `lhs`. -/
def operations (lhs : Expr) : Nat → Parse Expr
  | 0 => outOfFuel
  | fuel + 1 => do
    match (← peek).kind with
    | .sign op =>
      let _ ← advance
      let rhs ← operand fuel
      operations (.binary op lhs rhs) fuel
    | _ => return lhs

end

end LogoSyntax.Grammar

-- SUMMARY: Syntax trees of programs: expressions, items, blocks, and their decidable equality.
import LogoSyntax.Token

/-!
# Programs

A program is a list of blocks. A block is a control block or a statement, a
statement passes items to a procedure, and an item is a literal, a nested list
or array, or an expression in parentheses. Names and numbers are kept as they
are written. Parentheses inside an expression leave no node of their own, since
the shape of the tree records them.
-/

namespace LogoSyntax

/-! ## Expressions -/

/-- An arithmetic expression. -/
inductive Expr where
  | binary (op : Operator) (lhs rhs : Expr)
  | negate (operand : Expr)
  /-- A number as it is written. -/
  | number (text : String)
  | variableName (name : String)
deriving DecidableEq, Repr

namespace Expr

/-- The expression in source form, with every operation in parentheses. -/
def display : Expr → List Char
  | binary op lhs rhs =>
    ['(', ' '] ++ lhs.display ++ [' ', op.symbol, ' '] ++ rhs.display ++ [' ', ')']
  | negate e => ['-', ' '] ++ e.display
  | number text => text.toList
  | variableName name => ':' :: name.toList

/-- The source form as a text. -/
def toText (e : Expr) : String :=
  String.ofList e.display

end Expr

/-! ## Items -/

/-- An argument of a procedure. -/
inductive Item where
  /-- An expression in parentheses. -/
  | group (e : Expr)
  /-- Items in square brackets, which cannot be changed. -/
  | list (items : List Item)
  /-- Items in curly braces, which can be changed. -/
  | array (items : List Item)
  | word (text : String)
  | number (text : String)
  | variableName (name : String)
deriving Repr

namespace Item

mutual

/-- Whether two items are the same. -/
def same : Item → Item → Bool
  | group a, group b => a == b
  | list as, list bs => sameAll as bs
  | array as, array bs => sameAll as bs
  | word a, word b => a == b
  | number a, number b => a == b
  | variableName a, variableName b => a == b
  | _, _ => false

/-- Whether two lists hold the same items. -/
def sameAll : List Item → List Item → Bool
  | [], [] => true
  | a :: as, b :: bs => a.same b && sameAll as bs
  | _, _ => false

end

mutual

theorem same_iff (a b : Item) : a.same b = true ↔ a = b := by
  cases a with
  | group e => cases b <;> simp [same]
  | list as => cases b <;> simp [same, sameAll_iff as]
  | array as => cases b <;> simp [same, sameAll_iff as]
  | word a => cases b <;> simp [same]
  | number a => cases b <;> simp [same]
  | variableName a => cases b <;> simp [same]

theorem sameAll_iff (as bs : List Item) : sameAll as bs = true ↔ as = bs := by
  cases as with
  | nil => cases bs <;> simp [sameAll]
  | cons a as => cases bs <;> simp [sameAll, same_iff a, sameAll_iff as]

end

instance : DecidableEq Item := fun a b => decidable_of_iff _ (same_iff a b)

end Item

/-! ## Blocks -/

/-- A call of a procedure. -/
structure Statement where
  procedure : String
  items : List Item
  /-- Whether the call stands in parentheses, which allow any number of items. -/
  parenthesized : Bool
deriving DecidableEq, Repr

/-- A control block or a statement. -/
inductive Block where
  | run (body : List Block)
  | ifTrue (condition : Expr) (body : List Block)
  | ifElse (condition : Expr) (yes no : List Block)
  | repeatTimes (count : Expr) (body : List Block)
  | doWhile (body : List Block) (condition : Expr)
  | whileDo (condition : Expr) (body : List Block)
  | doUntil (body : List Block) (condition : Expr)
  | untilDo (condition : Expr) (body : List Block)
  | output (e : Expr)
  | stop
  | bye
  | call (statement : Statement)
deriving Repr

namespace Block

mutual

/-- Whether two blocks are the same. -/
def same : Block → Block → Bool
  | run as, run bs => sameAll as bs
  | ifTrue e as, ifTrue f bs => e == f && sameAll as bs
  | ifElse e as bs, ifElse f cs ds => e == f && sameAll as cs && sameAll bs ds
  | repeatTimes e as, repeatTimes f bs => e == f && sameAll as bs
  | doWhile as e, doWhile bs f => sameAll as bs && e == f
  | whileDo e as, whileDo f bs => e == f && sameAll as bs
  | doUntil as e, doUntil bs f => sameAll as bs && e == f
  | untilDo e as, untilDo f bs => e == f && sameAll as bs
  | output e, output f => e == f
  | stop, stop => true
  | bye, bye => true
  | call s, call t => s == t
  | _, _ => false

/-- Whether two lists hold the same blocks. -/
def sameAll : List Block → List Block → Bool
  | [], [] => true
  | a :: as, b :: bs => a.same b && sameAll as bs
  | _, _ => false

end

mutual

theorem same_iff (a b : Block) : a.same b = true ↔ a = b := by
  cases a with
  | run as => cases b <;> simp [same, sameAll_iff as]
  | ifTrue e as => cases b <;> simp [same, sameAll_iff as]
  | ifElse e as bs => cases b <;> simp [same, sameAll_iff as, sameAll_iff bs, and_assoc]
  | repeatTimes e as => cases b <;> simp [same, sameAll_iff as]
  | doWhile as e => cases b <;> simp [same, sameAll_iff as]
  | whileDo e as => cases b <;> simp [same, sameAll_iff as]
  | doUntil as e => cases b <;> simp [same, sameAll_iff as]
  | untilDo e as => cases b <;> simp [same, sameAll_iff as]
  | output e => cases b <;> simp [same]
  | stop => cases b <;> simp [same]
  | bye => cases b <;> simp [same]
  | call s => cases b <;> simp [same]

theorem sameAll_iff (as bs : List Block) : sameAll as bs = true ↔ as = bs := by
  cases as with
  | nil => cases bs <;> simp [sameAll]
  | cons a as => cases bs <;> simp [sameAll, same_iff a, sameAll_iff as]

end

instance : DecidableEq Block := fun a b => decidable_of_iff _ (same_iff a b)

end Block

/-- A complete program. -/
structure Program where
  blocks : List Block
deriving DecidableEq, Repr

/-! ## Outermost expressions -/

mutual

/-- The expressions of an item, those in nested lists and arrays included. -/
def Item.exprs : Item → List Expr
  | .group e => [e]
  | .list items => Item.exprsAll items
  | .array items => Item.exprsAll items
  | _ => []

/-- The expressions of some items. -/
def Item.exprsAll : List Item → List Expr
  | [] => []
  | item :: items => item.exprs ++ Item.exprsAll items

end

mutual

/-- The expressions of a block that are part of no other expression, in source order. -/
def Block.exprs : Block → List Expr
  | .run body => Block.exprsAll body
  | .ifTrue e body => e :: Block.exprsAll body
  | .ifElse e yes no => e :: Block.exprsAll yes ++ Block.exprsAll no
  | .repeatTimes e body => e :: Block.exprsAll body
  | .doWhile body e => Block.exprsAll body ++ [e]
  | .whileDo e body => e :: Block.exprsAll body
  | .doUntil body e => Block.exprsAll body ++ [e]
  | .untilDo e body => e :: Block.exprsAll body
  | .output e => [e]
  | .stop => []
  | .bye => []
  | .call s => Item.exprsAll s.items

/-- The outermost expressions of some blocks. -/
def Block.exprsAll : List Block → List Expr
  | [] => []
  | b :: bs => b.exprs ++ Block.exprsAll bs

end

/-- The outermost expressions of a program, in source order. -/
def Program.exprs (p : Program) : List Expr :=
  Block.exprsAll p.blocks

end LogoSyntax

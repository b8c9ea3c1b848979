-- SUMMARY: Programs and tokens as JSON values and as constructor terms.
import LogoSyntax.Json
import LogoSyntax.Program
import LogoSyntax.Term

/-!
# Encodings

A JSON encoding names the constructor of each node: a constructor without
arguments is a text, one with a single argument is an object with that argument
under its name, and one with several arguments holds a list of them. Nodes with
named parts hold an object instead. Blocks say first whether they are control
blocks or statements.

The constructor terms of programs show the same trees with the same names.
-/

namespace LogoSyntax

/-! ## Names -/

/-- The name of an operator in an encoded expression. -/
def Operator.name : Operator → String
  | add => "Add"
  | sub => "Sub"
  | mul => "Mul"
  | div => "Div"
  | rem => "Rem"
  | pow => "Pow"

/-- A value under the name of its constructor. -/
def Json.tagged (constructor : String) (v : Json) : Json :=
  object [(constructor, v)]

/-! ## JSON -/

/-- An expression as a JSON value. -/
def Expr.toJson : Expr → Json
  | binary op lhs rhs =>
    .tagged "Binary"
      (.object [("op", .text op.name), ("lhs", lhs.toJson), ("rhs", rhs.toJson)])
  | negate e => .tagged "Negate" e.toJson
  | number text => .tagged "Number" (.text text)
  | variableName name => .tagged "Variable" (.text name)

mutual

/-- An item as a JSON value. -/
def Item.toJson : Item → Json
  | .group e => .tagged "Group" e.toJson
  | .list items => .tagged "List" (.list (Item.toJsonAll items))
  | .array items => .tagged "Array" (.list (Item.toJsonAll items))
  | .word text => .tagged "Word" (.text text)
  | .number text => .tagged "Number" (.text text)
  | .variableName name => .tagged "Variable" (.text name)

/-- Items as JSON values. -/
def Item.toJsonAll : List Item → List Json
  | [] => []
  | item :: items => item.toJson :: Item.toJsonAll items

end

/-- A statement as a JSON value. -/
def Statement.toJson (s : Statement) : Json :=
  .object
    [ ("procedure", .text s.procedure),
      ("items", .list (Item.toJsonAll s.items)),
      ("parenthesized", .bool s.parenthesized) ]

mutual

/-- A block as a JSON value. -/
def Block.toJson : Block → Json
  | .run body => .tagged "Control" (.tagged "Run" (.list (Block.toJsonAll body)))
  | .ifTrue e body =>
    .tagged "Control" (.tagged "If" (.list [e.toJson, .list (Block.toJsonAll body)]))
  | .ifElse e yes no =>
    .tagged "Control" (.tagged "IfElse"
      (.list [e.toJson, .list (Block.toJsonAll yes), .list (Block.toJsonAll no)]))
  | .repeatTimes e body =>
    .tagged "Control" (.tagged "Repeat" (.list [e.toJson, .list (Block.toJsonAll body)]))
  | .doWhile body e =>
    .tagged "Control" (.tagged "DoWhile" (.list [.list (Block.toJsonAll body), e.toJson]))
  | .whileDo e body =>
    .tagged "Control" (.tagged "While" (.list [e.toJson, .list (Block.toJsonAll body)]))
  | .doUntil body e =>
    .tagged "Control" (.tagged "DoUntil" (.list [.list (Block.toJsonAll body), e.toJson]))
  | .untilDo e body =>
    .tagged "Control" (.tagged "Until" (.list [e.toJson, .list (Block.toJsonAll body)]))
  | .output e => .tagged "Control" (.tagged "Output" e.toJson)
  | .stop => .tagged "Control" (.text "Stop")
  | .bye => .tagged "Control" (.text "Bye")
  | .call s => .tagged "Statement" s.toJson

/-- Blocks as JSON values. -/
def Block.toJsonAll : List Block → List Json
  | [] => []
  | b :: bs => b.toJson :: Block.toJsonAll bs

end

/-- A program as a JSON value. -/
def Program.toJson (p : Program) : Json :=
  .object [("blocks", .list (Block.toJsonAll p.blocks))]

/-- A token as a JSON value. -/
def Token.toJson (t : Token) : Json :=
  .object
    [ ("kind", .text t.kind.tag),
      ("raw", .text t.raw),
      ("value", match t.value with
        | none => .null
        | some value => .text value),
      ("matched", .bool t.matched),
      ("line", .number t.line),
      ("col", .number t.col) ]

/-- A token list as a JSON value. -/
def Token.listToJson (ts : List Token) : Json :=
  .list (ts.map toJson)

/-! ## Constructor terms -/

/-- An expression as a constructor term. -/
def Expr.toTerm : Expr → Term
  | binary op lhs rhs =>
    .record "Binary" [("op", .name op.name), ("lhs", lhs.toTerm), ("rhs", rhs.toTerm)]
  | negate e => .apply "Negate" [e.toTerm]
  | number text => .apply "Number" [.text text]
  | variableName name => .apply "Variable" [.text name]

mutual

/-- An item as a constructor term. -/
def Item.toTerm : Item → Term
  | .group e => .apply "Group" [e.toTerm]
  | .list items => .apply "List" [.list (Item.toTermAll items)]
  | .array items => .apply "Array" [.list (Item.toTermAll items)]
  | .word text => .apply "Word" [.text text]
  | .number text => .apply "Number" [.text text]
  | .variableName name => .apply "Variable" [.text name]

/-- Items as constructor terms. -/
def Item.toTermAll : List Item → List Term
  | [] => []
  | item :: items => item.toTerm :: Item.toTermAll items

end

/-- A statement as a constructor term. -/
def Statement.toTerm (s : Statement) : Term :=
  .record "StatementBlock"
    [ ("procedure", .text s.procedure),
      ("items", .list (Item.toTermAll s.items)),
      ("parenthesized", .bool s.parenthesized) ]

mutual

/-- A block as a constructor term. -/
def Block.toTerm : Block → Term
  | .run body => .apply "Control" [.apply "Run" [.list (Block.toTermAll body)]]
  | .ifTrue e body => .apply "Control" [.apply "If" [e.toTerm, .list (Block.toTermAll body)]]
  | .ifElse e yes no =>
    .apply "Control"
      [.apply "IfElse" [e.toTerm, .list (Block.toTermAll yes), .list (Block.toTermAll no)]]
  | .repeatTimes e body =>
    .apply "Control" [.apply "Repeat" [e.toTerm, .list (Block.toTermAll body)]]
  | .doWhile body e =>
    .apply "Control" [.apply "DoWhile" [.list (Block.toTermAll body), e.toTerm]]
  | .whileDo e body =>
    .apply "Control" [.apply "While" [e.toTerm, .list (Block.toTermAll body)]]
  | .doUntil body e =>
    .apply "Control" [.apply "DoUntil" [.list (Block.toTermAll body), e.toTerm]]
  | .untilDo e body =>
    .apply "Control" [.apply "Until" [e.toTerm, .list (Block.toTermAll body)]]
  | .output e => .apply "Control" [.apply "Output" [e.toTerm]]
  | .stop => .apply "Control" [.name "Stop"]
  | .bye => .apply "Control" [.name "Bye"]
  | .call s => .apply "Statement" [s.toTerm]

/-- Blocks as constructor terms. -/
def Block.toTermAll : List Block → List Term
  | [] => []
  | b :: bs => b.toTerm :: Block.toTermAll bs

end

/-- A program as a constructor term. -/
def Program.toTerm (p : Program) : Term :=
  .record "Program" [("blocks", .list (Block.toTermAll p.blocks))]

end LogoSyntax

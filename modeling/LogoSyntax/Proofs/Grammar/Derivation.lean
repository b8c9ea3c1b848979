-- SUMMARY: The grammar as derivations: which token lists form an expression, an item, a block or a program, and with which tree.
import LogoSyntax.Program

/-!
# Derivations

```text
Program   = Block*
Block     = Control | Statement
Control   = RUN Body | IF Expr Body | IFELSE Expr Body Body | REPEAT Expr Body
          | DOWHILE Body Expr | WHILE Expr Body | DOUNTIL Body Expr | UNTIL Expr Body
          | OUTPUT Expr | STOP | BYE
Body      = '[' Block* ']'
Statement = PROCEDURE Item+ | '(' PROCEDURE Item* ')'
Item      = Group | List | Array | WORD | NUMBER | VARIABLE
List      = '[' Item* ']'
Array     = '{' Item* '}'
Group     = '(' Expr ')'
Expr      = Operand (Op Operand)*
Operand   = '-'? (Group | NUMBER | VARIABLE)
```

Each production is a relation between the tokens that it derives and the tree
that the derivation stands for. A rule says which tokens stand side by side and
nothing about the tokens around them: there is no lookahead and no preference
for the longer of two readings. A group leaves no node in an expression, and
a chain of operators is folded to the left.
-/

namespace LogoSyntax

namespace Token

/-- The token is of a kind and has a value. -/
def Carries (t : Token) (kind : TokenKind) (text : String) : Prop :=
  t.kind = kind ∧ t.value = some text

/-- What the grammar sees of a token. -/
def symbol (t : Token) : TokenKind × Option String :=
  (t.kind, t.value)

theorem symbol_eq_iff {t u : Token} :
    t.symbol = u.symbol ↔ t.kind = u.kind ∧ t.value = u.value := by
  simp [symbol]

end Token

/-- The value of a chain that begins with `first`: every operator takes all that
    stands to its left. -/
def Expr.chain (first : Expr) (rest : List (Operator × Expr)) : Expr :=
  rest.foldl (fun lhs step => .binary step.1 lhs step.2) first

/-! ## Expressions -/

mutual

/-- `Group | NUMBER | VARIABLE` -/
inductive DerivesPrimary : List Token → Expr → Prop where
  | number {t : Token} {text : String} (h : t.Carries .number text) :
      DerivesPrimary [t] (.number text)
  | variableName {t : Token} {name : String} (h : t.Carries .variableName name) :
      DerivesPrimary [t] (.variableName name)
  | group {ts : List Token} {e : Expr} (h : DerivesGroup ts e) : DerivesPrimary ts e

/-- `'(' Expr ')'` -/
inductive DerivesGroup : List Token → Expr → Prop where
  | mk {opening closing : Token} {ts : List Token} {e : Expr}
      (ho : opening.kind = .left .parenthesis) (he : DerivesExpr ts e)
      (hc : closing.kind = .right .parenthesis) :
      DerivesGroup (opening :: (ts ++ [closing])) e

/-- `'-'? (Group | NUMBER | VARIABLE)` -/
inductive DerivesOperand : List Token → Expr → Prop where
  | plain {ts : List Token} {e : Expr} (h : DerivesPrimary ts e) : DerivesOperand ts e
  | negated {minus : Token} {ts : List Token} {e : Expr} (hm : minus.kind = .sign .sub)
      (h : DerivesPrimary ts e) : DerivesOperand (minus :: ts) (.negate e)

/-- `(Op Operand)*` -/
inductive DerivesOperations : List Token → List (Operator × Expr) → Prop where
  | nil : DerivesOperations [] []
  | cons {sign : Token} {op : Operator} {ts us : List Token} {e : Expr}
      {rest : List (Operator × Expr)} (hs : sign.kind = .sign op) (he : DerivesOperand ts e)
      (hr : DerivesOperations us rest) :
      DerivesOperations (sign :: (ts ++ us)) ((op, e) :: rest)

/-- `Operand (Op Operand)*` -/
inductive DerivesExpr : List Token → Expr → Prop where
  | mk {ts us : List Token} {first : Expr} {rest : List (Operator × Expr)}
      (hf : DerivesOperand ts first) (hr : DerivesOperations us rest) :
      DerivesExpr (ts ++ us) (first.chain rest)

end

/-! ## Items -/

mutual

/-- `Group | List | Array | WORD | NUMBER | VARIABLE` -/
inductive DerivesItem : List Token → Item → Prop where
  | group {ts : List Token} {e : Expr} (h : DerivesGroup ts e) : DerivesItem ts (.group e)
  | list {ts : List Token} {items : List Item} (h : DerivesSequence .bracket ts items) :
      DerivesItem ts (.list items)
  | array {ts : List Token} {items : List Item} (h : DerivesSequence .brace ts items) :
      DerivesItem ts (.array items)
  | word {t : Token} {text : String} (h : t.Carries .word text) : DerivesItem [t] (.word text)
  | number {t : Token} {text : String} (h : t.Carries .number text) :
      DerivesItem [t] (.number text)
  | variableName {t : Token} {name : String} (h : t.Carries .variableName name) :
      DerivesItem [t] (.variableName name)

/-- `Item*` between a pair of delimiters. -/
inductive DerivesSequence : Delimiter → List Token → List Item → Prop where
  | mk {d : Delimiter} {opening closing : Token} {ts : List Token} {items : List Item}
      (ho : opening.kind = .left d) (h : DerivesItems ts items) (hc : closing.kind = .right d) :
      DerivesSequence d (opening :: (ts ++ [closing])) items

/-- `Item*` -/
inductive DerivesItems : List Token → List Item → Prop where
  | nil : DerivesItems [] []
  | cons {ts us : List Token} {i : Item} {items : List Item} (hi : DerivesItem ts i)
      (h : DerivesItems us items) : DerivesItems (ts ++ us) (i :: items)

end

/-- `PROCEDURE Item+ | '(' PROCEDURE Item* ')'` -/
inductive DerivesStatement : List Token → Statement → Prop where
  | plain {t : Token} {procedure : String} {ts us : List Token} {i : Item} {items : List Item}
      (hp : t.Carries .procedure procedure) (hi : DerivesItem ts i) (h : DerivesItems us items) :
      DerivesStatement (t :: (ts ++ us)) ⟨procedure, i :: items, false⟩
  | parenthesized {opening t closing : Token} {procedure : String} {ts : List Token}
      {items : List Item} (ho : opening.kind = .left .parenthesis)
      (hp : t.Carries .procedure procedure) (h : DerivesItems ts items)
      (hc : closing.kind = .right .parenthesis) :
      DerivesStatement (opening :: t :: (ts ++ [closing])) ⟨procedure, items, true⟩

/-! ## Blocks -/

mutual

/-- What follows the keyword of a control block. -/
inductive DerivesControl : Keyword → List Token → Block → Prop where
  | run {ts : List Token} {body : List Block} (hb : DerivesBody ts body) :
      DerivesControl .run ts (.run body)
  | ifTrue {ts us : List Token} {e : Expr} {body : List Block} (he : DerivesExpr ts e)
      (hb : DerivesBody us body) : DerivesControl .ifTrue (ts ++ us) (.ifTrue e body)
  | ifElse {ts us vs : List Token} {e : Expr} {yes no : List Block} (he : DerivesExpr ts e)
      (hy : DerivesBody us yes) (hn : DerivesBody vs no) :
      DerivesControl .ifElse (ts ++ (us ++ vs)) (.ifElse e yes no)
  | repeatTimes {ts us : List Token} {e : Expr} {body : List Block} (he : DerivesExpr ts e)
      (hb : DerivesBody us body) : DerivesControl .repeatTimes (ts ++ us) (.repeatTimes e body)
  | doWhile {ts us : List Token} {e : Expr} {body : List Block} (hb : DerivesBody ts body)
      (he : DerivesExpr us e) : DerivesControl .doWhile (ts ++ us) (.doWhile body e)
  | whileDo {ts us : List Token} {e : Expr} {body : List Block} (he : DerivesExpr ts e)
      (hb : DerivesBody us body) : DerivesControl .whileDo (ts ++ us) (.whileDo e body)
  | doUntil {ts us : List Token} {e : Expr} {body : List Block} (hb : DerivesBody ts body)
      (he : DerivesExpr us e) : DerivesControl .doUntil (ts ++ us) (.doUntil body e)
  | untilDo {ts us : List Token} {e : Expr} {body : List Block} (he : DerivesExpr ts e)
      (hb : DerivesBody us body) : DerivesControl .untilDo (ts ++ us) (.untilDo e body)
  | output {ts : List Token} {e : Expr} (he : DerivesExpr ts e) :
      DerivesControl .output ts (.output e)
  | stop : DerivesControl .stop [] .stop
  | bye : DerivesControl .bye [] .bye

/-- `Control | Statement` -/
inductive DerivesBlock : List Token → Block → Prop where
  | control {t : Token} {k : Keyword} {ts : List Token} {b : Block} (hk : t.kind = .keyword k)
      (h : DerivesControl k ts b) : DerivesBlock (t :: ts) b
  | call {ts : List Token} {s : Statement} (h : DerivesStatement ts s) : DerivesBlock ts (.call s)

/-- `'[' Block* ']'` -/
inductive DerivesBody : List Token → List Block → Prop where
  | mk {opening closing : Token} {ts : List Token} {blocks : List Block}
      (ho : opening.kind = .left .bracket) (h : DerivesBlocks ts blocks)
      (hc : closing.kind = .right .bracket) : DerivesBody (opening :: (ts ++ [closing])) blocks

/-- `Block*` -/
inductive DerivesBlocks : List Token → List Block → Prop where
  | nil : DerivesBlocks [] []
  | cons {ts us : List Token} {b : Block} {blocks : List Block} (hb : DerivesBlock ts b)
      (h : DerivesBlocks us blocks) : DerivesBlocks (ts ++ us) (b :: blocks)

end

/-- `Block*`, as a whole program. -/
def DerivesProgram (ts : List Token) (p : Program) : Prop :=
  DerivesBlocks ts p.blocks

end LogoSyntax

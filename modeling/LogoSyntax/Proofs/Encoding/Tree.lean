-- SUMMARY: Programs and tokens can be read off their JSON forms.
import LogoSyntax.Encoding
import LogoSyntax.Proofs.Encoding.Compact

/-!
# Reading encoded programs and tokens

The JSON value of a node names its constructor, and so nodes that hold the same parts, as
a list and an array, or two parts in another order, as `WHILE` and `DOWHILE`, have different
values. By induction over the tree, different programs have different values
(`Program.toJson_inj`).

The value of a token holds each of its fields under a key of its own. It is printed with its
keys in ascending order, which is the same order for all tokens (`Token.sorted_toJson`).
Together with the compact form of JSON values, which can be read, this makes
`json_tells_programs_and_tokens`.
-/

namespace LogoSyntax

/-! ## Programs -/

theorem Operator.name_inj {o p : Operator} : o.name = p.name ↔ o = p := by
  cases o <;> cases p <;> decide

/-- Expressions with the same value are the same. The operator is named in the value. -/
theorem Expr.toJson_inj (e f : Expr) : e.toJson = f.toJson ↔ e = f := by
  induction e generalizing f with
  | binary op lhs rhs ihl ihr =>
    cases f <;> simp [toJson, Json.tagged, Operator.name_inj, ihl, ihr]
  | negate e ih => cases f <;> simp [toJson, Json.tagged, ih]
  | number text => cases f <;> simp [toJson, Json.tagged]
  | variableName name => cases f <;> simp [toJson, Json.tagged]

mutual

/-- Items with the same value are the same. Lists and arrays are told by their tags. -/
theorem Item.toJson_inj (a b : Item) : a.toJson = b.toJson ↔ a = b := by
  cases a with
  | group e => cases b <;> simp [toJson, Json.tagged, Expr.toJson_inj]
  | list as => cases b <;> simp [toJson, Json.tagged, toJsonAll_inj as]
  | array as => cases b <;> simp [toJson, Json.tagged, toJsonAll_inj as]
  | word text => cases b <;> simp [toJson, Json.tagged]
  | number text => cases b <;> simp [toJson, Json.tagged]
  | variableName name => cases b <;> simp [toJson, Json.tagged]

theorem Item.toJsonAll_inj (as bs : List Item) :
    Item.toJsonAll as = Item.toJsonAll bs ↔ as = bs := by
  cases as with
  | nil => cases bs <;> simp [toJsonAll]
  | cons a as => cases bs <;> simp [toJsonAll, toJson_inj a, toJsonAll_inj as]

end

theorem Statement.toJson_inj (s t : Statement) : s.toJson = t.toJson ↔ s = t := by
  cases s
  cases t
  simp [toJson, Item.toJsonAll_inj]

mutual

/-- Blocks with the same value are the same, one case for each pair of constructors. -/
theorem Block.toJson_inj (a b : Block) : a.toJson = b.toJson ↔ a = b := by
  cases a with
  | run as => cases b <;> simp [toJson, Json.tagged, toJsonAll_inj as]
  | ifTrue e as => cases b <;> simp [toJson, Json.tagged, Expr.toJson_inj, toJsonAll_inj as]
  | ifElse e as bs =>
    cases b <;>
      simp [toJson, Json.tagged, Expr.toJson_inj, toJsonAll_inj as, toJsonAll_inj bs]
  | repeatTimes e as => cases b <;> simp [toJson, Json.tagged, Expr.toJson_inj, toJsonAll_inj as]
  | doWhile as e => cases b <;> simp [toJson, Json.tagged, Expr.toJson_inj, toJsonAll_inj as]
  | whileDo e as => cases b <;> simp [toJson, Json.tagged, Expr.toJson_inj, toJsonAll_inj as]
  | doUntil as e => cases b <;> simp [toJson, Json.tagged, Expr.toJson_inj, toJsonAll_inj as]
  | untilDo e as => cases b <;> simp [toJson, Json.tagged, Expr.toJson_inj, toJsonAll_inj as]
  | output e => cases b <;> simp [toJson, Json.tagged, Expr.toJson_inj]
  | stop => cases b <;> simp [toJson, Json.tagged]
  | bye => cases b <;> simp [toJson, Json.tagged]
  | call s => cases b <;> simp [toJson, Json.tagged, Statement.toJson_inj]

theorem Block.toJsonAll_inj (as bs : List Block) :
    Block.toJsonAll as = Block.toJsonAll bs ↔ as = bs := by
  cases as with
  | nil => cases bs <;> simp [toJsonAll]
  | cons a as => cases bs <;> simp [toJsonAll, toJson_inj a, toJsonAll_inj as]

end

/-- Programs with the same value are the same. -/
theorem Program.toJson_inj (p q : Program) : p.toJson = q.toJson ↔ p = q := by
  cases p
  cases q
  simp [toJson, Block.toJsonAll_inj]

/-! ## Tokens -/

theorem TokenKind.tag_injective : Function.Injective TokenKind.tag := by
  have hread : ∀ kind ∈ all, ofTag? kind.tag = some kind := by decide
  intro k l h
  have htag := congrArg ofTag? h
  rw [hread k k.mem_all, hread l l.mem_all] at htag
  exact Option.some.inj htag

namespace Token

/-- The value of a token in a JSON object, which is null if the token has none. -/
def valueJson (t : Token) : Json :=
  match t.value with
  | none => .null
  | some value => .text value

theorem valueJson_inj {t u : Token} : t.valueJson = u.valueJson ↔ t.value = u.value := by
  unfold valueJson
  cases t.value <;> cases u.value <;> simp

/-- The fields of a token in ascending order of their keys. -/
theorem sorted_toJson (t : Token) : t.toJson.sorted =
    .object
      [ ("col", .number t.col), ("kind", .text t.kind.tag), ("line", .number t.line),
        ("matched", .bool t.matched), ("raw", .text t.raw), ("value", t.valueJson) ] := by
  have hvalue : t.valueJson.sorted = t.valueJson := by
    unfold valueJson
    cases t.value <;> rfl
  have hfields : t.toJson = .object
      [ ("kind", .text t.kind.tag), ("raw", .text t.raw), ("value", t.valueJson),
        ("matched", .bool t.matched), ("line", .number t.line), ("col", .number t.col) ] := rfl
  have hless : "kind" < "line" ∧ "raw" < "value" := by decide
  have hnot : ¬ "line" < "col" ∧ ¬ "kind" < "col" ∧ (¬ "matched" < "col" ∧ ¬ "matched" < "line") ∧
      (¬ "raw" < "col" ∧ ¬ "raw" < "line" ∧ ¬ "raw" < "matched") ∧
      ¬ "value" < "col" ∧ ¬ "value" < "line" ∧ ¬ "value" < "matched" := by
    decide
  simp only [hfields, Json.sorted, Json.sortedFields, Json.insertField, hvalue, hless, hnot,
    if_true, if_false]

/-- Tokens with the same fields are the same. -/
theorem sorted_toJson_inj (t u : Token) : t.toJson.sorted = u.toJson.sorted ↔ t = u := by
  rw [sorted_toJson, sorted_toJson]
  cases t
  cases u
  simp [valueJson_inj, TokenKind.tag_injective.eq_iff]
  tauto

theorem sorted_listToJson (ts : List Token) :
    (listToJson ts).sorted = .list (ts.map fun t => t.toJson.sorted) := by
  have helements : Json.sortedElements (ts.map toJson) = ts.map fun t => t.toJson.sorted := by
    induction ts with
    | nil => rfl
    | cons t ts ih => rw [List.map_cons, Json.sortedElements, ih, List.map_cons]
  rw [listToJson, Json.sorted, helements]

theorem sorted_listToJson_inj (ts us : List Token) :
    (listToJson ts).sorted = (listToJson us).sorted ↔ ts = us := by
  rw [sorted_listToJson, sorted_listToJson, Json.list.injEq]
  exact List.map_inj_right fun t u => (sorted_toJson_inj t u).1

end Token

/-! ## Written forms -/

/-- Programs that are written as the same JSON text are the same, and so are lists of tokens
    that have the same JSON value with its fields in ascending order, whatever texts they
    hold. -/
theorem json_tells_programs_and_tokens :
    (∀ p q : Program, p.toJson.compact = q.toJson.compact ↔ p = q) ∧
      ∀ ts us : List Token,
        (Token.listToJson ts).sorted = (Token.listToJson us).sorted ↔ ts = us := by
  refine ⟨fun p q => ?_, Token.sorted_listToJson_inj⟩
  rw [Json.compact_injective.eq_iff, Program.toJson_inj]

end LogoSyntax

-- SUMMARY: Every production is composed of primitive actions, and refuses tokens with a few diagnoses alone.
import LogoSyntax.Grammar.Block
import LogoSyntax.Proofs.Reader.Actions

/-!
# Productions as composed actions

The productions are put together from the primitive actions on a reader, and each
of them refuses tokens under its own name. The diagnoses with which a program is
rejected are therefore those of one table, whatever the source is
(`diagnosis_of_parse`).
-/

namespace LogoSyntax

open Parse Grammar

/-! ## Diagnoses -/

/-- The productions with what they can miss at a token that they refuse. -/
def diagnoses : List (String × Expected) :=
  [("block", .production "block"),
    ("body", .token (.left .bracket)), ("body", .token (.right .bracket)),
    ("statement", .token .procedure), ("statement", .token (.right .parenthesis)),
    ("item", .production "item"),
    ("list", .token (.left .bracket)), ("list", .token (.right .bracket)),
    ("array", .token (.left .brace)), ("array", .token (.right .brace)),
    ("group", .token (.left .parenthesis)), ("group", .token (.right .parenthesis)),
    ("operand", .production "operand")]

/-- A production and what it misses at a token. -/
def Diagnosis (production : String) (expected : Expected) : Prop :=
  (production, expected) ∈ diagnoses

instance (production : String) (expected : Expected) : Decidable (Diagnosis production expected) :=
  inferInstanceAs (Decidable ((production, expected) ∈ diagnoses))

/-! ## Productions -/

mutual

theorem primary_composed (n : Nat) : Composed Diagnosis (primary n) := by
  cases n with
  | zero => exact .outOfFuel
  | succ n =>
    rw [primary]
    have hother : Composed Diagnosis (unexpected (α := Expr) "operand" (.production "operand")) :=
      .unexpected (by decide)
    refine .bind .peek fun t => ?_
    cases t.kind with
    | left d =>
      cases d with
      | parenthesis => exact group_composed n
      | _ => exact hother
    | number | variableName => exact .bind .advance fun _ => .pure _
    | _ => exact hother
termination_by n

theorem group_composed (n : Nat) : Composed Diagnosis (group n) := by
  cases n with
  | zero => exact .outOfFuel
  | succ n =>
    rw [group]
    refine .bind (.expect (by decide)) fun _ => .bind (expr_composed n) fun _ => ?_
    exact .bind (.expect (by decide)) fun _ => .pure _
termination_by n

theorem operand_composed (n : Nat) : Composed Diagnosis (operand n) := by
  cases n with
  | zero => exact .outOfFuel
  | succ n =>
    rw [operand]
    refine .bind (.check _) fun _ => .ite _ ?_ (primary_composed n)
    exact .bind .advance fun _ => .bind (primary_composed n) fun _ => .pure _
termination_by n

/-- An expression refuses tokens as an operand or as a group does. -/
theorem expr_composed (n : Nat) : Composed Diagnosis (expr n) := by
  cases n with
  | zero => exact .outOfFuel
  | succ n =>
    rw [expr]
    exact .bind (operand_composed n) fun first => operations_composed first n
termination_by n

theorem operations_composed (lhs : Expr) (n : Nat) : Composed Diagnosis (operations lhs n) := by
  cases n with
  | zero => exact .outOfFuel
  | succ n =>
    rw [operations]
    refine .bind .peek fun t => ?_
    cases t.kind with
    | sign op =>
      refine .bind .advance fun _ => .bind (operand_composed n) fun rhs => ?_
      exact operations_composed _ n
    | _ => exact .pure _
termination_by n

end

mutual

/-- An item refuses tokens under its own name or as one of its kinds. -/
theorem item_composed (n : Nat) : Composed Diagnosis (item n) := by
  cases n with
  | zero => exact .outOfFuel
  | succ n =>
    rw [item]
    have hother : Composed Diagnosis (unexpected (α := Item) "item" (.production "item")) :=
      .unexpected (by decide)
    refine .bind .peek fun t => ?_
    cases t.kind with
    | left d =>
      cases d with
      | parenthesis => exact .bind (group_composed n) fun _ => .pure _
      | bracket => exact .bind (sequence_composed (by decide) (by decide) n) fun _ => .pure _
      | brace => exact .bind (sequence_composed (by decide) (by decide) n) fun _ => .pure _
    | word | number | variableName => exact .bind .advance fun _ => .pure _
    | _ => exact hother
termination_by n

theorem sequence_composed {d : Delimiter} {production : String}
    (hleft : Diagnosis production (.token (.left d)))
    (hright : Diagnosis production (.token (.right d))) (n : Nat) :
    Composed Diagnosis (sequence d production n) := by
  cases n with
  | zero => exact .outOfFuel
  | succ n =>
    rw [Grammar.sequence]
    exact .bind (.expect hleft) fun _ => itemsUntil_composed hright n
termination_by n

theorem itemsUntil_composed {d : Delimiter} {production : String}
    (hright : Diagnosis production (.token (.right d))) (n : Nat) :
    Composed Diagnosis (itemsUntil d production n) := by
  cases n with
  | zero => exact .outOfFuel
  | succ n =>
    rw [itemsUntil]
    refine .bind (.check _) fun _ => .ite _ (.bind .advance fun _ => .pure _) ?_
    refine .bind (.check _) fun _ => .ite _ (.unexpected hright) ?_
    exact .bind (item_composed n) fun _ => .bind (itemsUntil_composed hright n) fun _ => .pure _
termination_by n

end

theorem startsItem_composed : Composed Diagnosis startsItem := by
  rw [startsItem]
  refine .bind .peek fun t => ?_
  cases t.kind with
  | left d =>
    cases d with
    | parenthesis => exact .bind (.peekNth 1) fun _ => .pure _
    | _ => exact .pure _
  | _ => exact .pure _

theorem itemsWhile_composed (n : Nat) : Composed Diagnosis (itemsWhile n) := by
  induction n with
  | zero => exact .outOfFuel
  | succ n ih =>
    rw [itemsWhile]
    refine .bind startsItem_composed fun _ => .ite _ ?_ (.pure _)
    exact .bind (item_composed n) fun _ => .bind ih fun _ => .pure _

theorem procedureName_composed : Composed Diagnosis procedureName :=
  .bind (.expect (by decide)) fun _ => .pure _

/-- A statement refuses tokens in place of its name and its closing parenthesis, or as its
    items do. -/
theorem statement_composed (n : Nat) : Composed Diagnosis (statement n) := by
  rw [statement]
  refine .bind (.check _) fun _ => .ite _ ?_ ?_
  · refine .bind .advance fun _ => .bind procedureName_composed fun _ => ?_
    exact .bind (itemsUntil_composed (by decide) n) fun _ => .pure _
  · refine .bind procedureName_composed fun _ => .bind (item_composed n) fun _ => ?_
    exact .bind (itemsWhile_composed n) fun _ => .pure _

mutual

/-- A block refuses a first token under its own name. -/
theorem block_composed (n : Nat) : Composed Diagnosis (block n) := by
  cases n with
  | zero => exact .outOfFuel
  | succ n =>
    rw [block]
    have hcall : Composed Diagnosis (statement n >>= fun s => pure (Block.call s)) :=
      .bind (statement_composed n) fun _ => .pure _
    have hother : Composed Diagnosis (unexpected (α := Block) "block" (.production "block")) :=
      .unexpected (by decide)
    refine .bind .peek fun t => ?_
    cases t.kind with
    | keyword k => exact .bind .advance fun _ => .bind (.record _) fun _ => control_composed k n
    | procedure => exact hcall
    | left d =>
      cases d with
      | parenthesis => exact hcall
      | _ => exact hother
    | _ => exact hother
termination_by n

theorem control_composed (k : Keyword) (n : Nat) : Composed Diagnosis (Grammar.control k n) := by
  cases n with
  | zero => cases k <;> exact .outOfFuel
  | succ n =>
    have hexpr : Composed Diagnosis (expr n) := expr_composed n
    have hbody : Composed Diagnosis (body n) := body_composed n
    cases k with
    | run =>
      rw [Grammar.control]
      exact .bind hbody fun _ => .pure _
    | ifTrue | repeatTimes | whileDo | untilDo =>
      rw [Grammar.control]
      exact .bind hexpr fun _ => .bind hbody fun _ => .pure _
    | ifElse =>
      rw [Grammar.control]
      exact .bind hexpr fun _ => .bind hbody fun _ => .bind hbody fun _ => .pure _
    | doWhile | doUntil =>
      rw [Grammar.control]
      exact .bind hbody fun _ => .bind hexpr fun _ => .pure _
    | output =>
      rw [Grammar.control]
      exact .bind hexpr fun _ => .pure _
    | stop | bye =>
      rw [Grammar.control]
      exact .pure _
termination_by n

theorem body_composed (n : Nat) : Composed Diagnosis (body n) := by
  cases n with
  | zero => exact .outOfFuel
  | succ n =>
    rw [body]
    exact .bind (.expect (by decide)) fun _ => blocksUntilBracket_composed n
termination_by n

theorem blocksUntilBracket_composed (n : Nat) : Composed Diagnosis (blocksUntilBracket n) := by
  cases n with
  | zero => exact .outOfFuel
  | succ n =>
    rw [blocksUntilBracket]
    refine .bind (.check _) fun _ => .ite _ (.bind .advance fun _ => .pure _) ?_
    refine .bind (.check _) fun _ => .ite _ (.unexpected (by decide)) ?_
    exact .bind (block_composed n) fun _ => .bind (blocksUntilBracket_composed n) fun _ => .pure _
termination_by n

end

theorem blocksUntilEnd_composed (n : Nat) : Composed Diagnosis (blocksUntilEnd n) := by
  induction n with
  | zero => exact .outOfFuel
  | succ n ih =>
    rw [blocksUntilEnd]
    refine .bind (.check _) fun _ => .ite _ (.pure _) ?_
    exact .bind (block_composed n) fun _ => .bind ih fun _ => .pure _

/-- A program refuses tokens as one of its blocks does. -/
theorem program_composed (n : Nat) : Composed Diagnosis (program n) := by
  rw [program]
  exact .bind (blocksUntilEnd_composed n) fun _ => .bind (.record _) fun _ => .pure _

/-! ## Programs -/

/-- A source is rejected with a diagnosis of the table. -/
theorem diagnosis_of_parse {source : String} {e : SyntaxError}
    (h : parse source = .error (.syntaxError e)) : Diagnosis e.production e.expected := by
  rw [parse, Reader.parse] at h
  split at h
  · cases h
  · next he =>
    cases h
    exact (program_composed _).diagnosis he

end LogoSyntax

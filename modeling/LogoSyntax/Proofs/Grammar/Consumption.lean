-- SUMMARY: Every production of the grammar takes orderly steps and consumes a token by the time it succeeds.
import LogoSyntax.Grammar.Block
import LogoSyntax.Proofs.Reader.Progress

/-!
# Consumption

The productions are composed of a few actions, and so are the steps that they take. By the
rules for these actions a production `Consumes`: it looks ahead and consumes in orderly
steps, and it has consumed a token if it succeeds. What may succeed on no tokens, such as
the rest of an expression behind its first operand, `Keeps` to orderly steps.

The proofs follow the fuel and the definitions of the productions, which are mutually
recursive.
-/

namespace LogoSyntax

open Parse Grammar

/-! ## Expressions -/

theorem leaf_consumes {α : Type} {t : Token} {ts : List Token} (tree : String → α)
    (hS : Stream (t :: ts)) (hk : t.kind.isEnd = false) :
    Consumes (advance >>= fun u => pure (tree u.payload)) (t :: ts) :=
  Consumes.bind hS (Consumes.advance hS hk) fun _ _ _ => Keeps.pure _

mutual

theorem primary_consumes {S : List Token} (n : Nat) (hS : Stream S) : Consumes (primary n) S := by
  cases n with
  | zero => exact Consumes.outOfFuel
  | succ n =>
    rw [primary]
    have hother := Consumes.unexpected (α := Expr) hS "operand" (.production "operand")
    refine Proceeds.peek_bind hS fun t ts hts => ?_
    cases hk : t.kind with
    | left d =>
      cases d with
      | parenthesis => exact group_consumes n hS
      | _ => exact hother
    | number | variableName =>
      subst hts
      exact leaf_consumes _ hS (by rw [hk]; rfl)
    | _ => exact hother
termination_by n

theorem group_consumes {S : List Token} (n : Nat) (hS : Stream S) : Consumes (group n) S := by
  cases n with
  | zero => exact Consumes.outOfFuel
  | succ n =>
    rw [group]
    refine Consumes.bind hS (Consumes.expect hS rfl "group") fun _ T hT => ?_
    refine Keeps.bind hT (expr_consumes n hT).keeps fun _ U hU => ?_
    exact Consumes.bind hU (Consumes.expect hU rfl "group") fun _ _ _ => Keeps.pure _
termination_by n

theorem operand_consumes {S : List Token} (n : Nat) (hS : Stream S) : Consumes (operand n) S := by
  cases n with
  | zero => exact Consumes.outOfFuel
  | succ n =>
    rw [operand]
    refine Proceeds.check_ite hS (fun t ts hts hk => ?_) (primary_consumes n hS)
    subst hts
    refine Consumes.bind hS (Consumes.advance hS (by rw [hk]; rfl)) fun _ T hT => ?_
    exact Consumes.bind hT (primary_consumes n hT) fun _ _ _ => Keeps.pure _
termination_by n

/-- An expression consumes a token: its first operand does, whatever follows. -/
theorem expr_consumes {S : List Token} (n : Nat) (hS : Stream S) : Consumes (expr n) S := by
  cases n with
  | zero => exact Consumes.outOfFuel
  | succ n =>
    rw [expr]
    exact Consumes.bind hS (operand_consumes n hS) fun first _ hT => operations_keeps first n hT
termination_by n

/-- There may be no operations, so they keep to orderly steps and need not consume. -/
theorem operations_keeps {S : List Token} (lhs : Expr) (n : Nat) (hS : Stream S) :
    Keeps (operations lhs n) S := by
  cases n with
  | zero => exact Consumes.outOfFuel.keeps
  | succ n =>
    rw [operations]
    refine Proceeds.peek_bind hS fun t ts hts => ?_
    cases hk : t.kind with
    | sign op =>
      subst hts
      refine Consumes.bind hS (Consumes.advance hS (by rw [hk]; rfl)) fun _ T hT => ?_
      exact Consumes.bind hT (operand_consumes n hT) fun rhs _ hU => operations_keeps _ n hU
    | _ => exact Keeps.pure _
termination_by n

end

/-! ## Items and statements -/

mutual

/-- An item consumes a token, be it a leaf or an opening delimiter. -/
theorem item_consumes {S : List Token} (n : Nat) (hS : Stream S) : Consumes (item n) S := by
  cases n with
  | zero => exact Consumes.outOfFuel
  | succ n =>
    rw [item]
    have hother := Consumes.unexpected (α := Item) hS "item" (.production "item")
    refine Proceeds.peek_bind hS fun t ts hts => ?_
    cases hk : t.kind with
    | left d =>
      cases d with
      | parenthesis => exact Consumes.bind hS (group_consumes n hS) fun _ _ _ => Keeps.pure _
      | bracket =>
        exact Consumes.bind hS (sequence_consumes _ _ n hS) fun _ _ _ => Keeps.pure _
      | brace =>
        exact Consumes.bind hS (sequence_consumes _ _ n hS) fun _ _ _ => Keeps.pure _
    | word | number | variableName =>
      subst hts
      exact leaf_consumes _ hS (by rw [hk]; rfl)
    | _ => exact hother
termination_by n

theorem sequence_consumes {S : List Token} (d : Delimiter) (production : String) (n : Nat)
    (hS : Stream S) : Consumes (sequence d production n) S := by
  cases n with
  | zero => exact Consumes.outOfFuel
  | succ n =>
    rw [Grammar.sequence]
    exact Consumes.bind hS (Consumes.expect hS rfl production) fun _ _ hT =>
      (itemsUntil_consumes d production n hT).keeps
termination_by n

/-- Items up to a closing delimiter consume a token: that delimiter, if there are none. -/
theorem itemsUntil_consumes {S : List Token} (d : Delimiter) (production : String) (n : Nat)
    (hS : Stream S) : Consumes (itemsUntil d production n) S := by
  cases n with
  | zero => exact Consumes.outOfFuel
  | succ n =>
    rw [itemsUntil]
    refine Proceeds.check_ite hS (fun t ts hts hk => ?_) ?_
    · subst hts
      exact Consumes.bind hS (Consumes.advance hS (by rw [hk]; rfl)) fun _ _ _ => Keeps.pure _
    · refine Proceeds.check_ite hS (fun _ _ _ _ => Consumes.unexpected hS _ _) ?_
      refine Consumes.bind hS (item_consumes n hS) fun _ T hT => ?_
      exact Consumes.bind hT (itemsUntil_consumes d production n hT) fun _ _ _ => Keeps.pure _
termination_by n

end

theorem startsItem_keeps {S : List Token} (hS : Stream S) : Keeps startsItem S := by
  rw [startsItem]
  refine Proceeds.peek_bind hS fun t ts hts => ?_
  cases t.kind with
  | left d =>
    cases d with
    | parenthesis => exact Keeps.bind hS (Keeps.peekNth (by omega)) fun _ _ _ => Keeps.pure _
    | _ => exact Keeps.pure _
  | _ => exact Keeps.pure _

/-- The items of a statement without parentheses may be none. -/
theorem itemsWhile_keeps {S : List Token} (n : Nat) (hS : Stream S) : Keeps (itemsWhile n) S := by
  induction n generalizing S with
  | zero => exact Consumes.outOfFuel.keeps
  | succ n ih =>
    rw [itemsWhile]
    refine Keeps.bind hS (startsItem_keeps hS) fun b T hT => Proceeds.ite b ?_ (Keeps.pure _)
    refine Consumes.bind hT (item_consumes n hT) fun _ U hU => ?_
    exact Keeps.bind hU (ih hU) fun _ _ _ => Keeps.pure _

theorem procedureName_consumes {S : List Token} (hS : Stream S) : Consumes procedureName S :=
  Consumes.bind hS (Consumes.expect hS rfl "statement") fun _ _ _ => Keeps.pure _

/-- A statement consumes a token: a parenthesis or the name of a procedure. -/
theorem statement_consumes {S : List Token} (n : Nat) (hS : Stream S) :
    Consumes (statement n) S := by
  rw [statement]
  refine Proceeds.check_ite hS (fun t ts hts hk => ?_) ?_
  · subst hts
    refine Consumes.bind hS (Consumes.advance hS (by rw [hk]; rfl)) fun _ T hT => ?_
    refine Consumes.bind hT (procedureName_consumes hT) fun _ U hU => ?_
    exact Consumes.bind hU (itemsUntil_consumes _ _ n hU) fun _ _ _ => Keeps.pure _
  · refine Consumes.bind hS (procedureName_consumes hS) fun _ T hT => ?_
    refine Consumes.bind hT (item_consumes n hT) fun _ U hU => ?_
    exact Keeps.bind hU (itemsWhile_keeps n hU) fun _ _ _ => Keeps.pure _

/-! ## Blocks -/

/-- A keyword, which is logged, and the block that it begins. -/
def Grammar.controlBlock (k : Keyword) (n : Nat) : Parse Block := do
  let t ← advance
  record ⟨.trace, .grammar,
    toString t.line ++ ":" ++ toString t.col ++ " " ++ t.kind.name⟩
  Grammar.control k n

/-- A block is begun by a keyword or is a statement. -/
theorem block_succ (n : Nat) : block (n + 1) = (do
    match (← peek).kind with
    | .keyword k => controlBlock k n
    | .procedure | .left .parenthesis => return .call (← statement n)
    | _ => unexpected "block" (.production "block")) := by
  rw [block]
  rfl

/-- What follows a keyword takes orderly steps if bodies do. -/
theorem control_keeps_of {S : List Token} (k : Keyword) (n : Nat) (hS : Stream S)
    (hbody : ∀ T, Stream T → Consumes (body n) T) : Keeps (Grammar.control k (n + 1)) S := by
  have hexpr : ∀ T, Stream T → Consumes (expr n) T := fun T => expr_consumes n
  cases k with
  | run =>
    rw [Grammar.control]
    exact Consumes.bind hS (hbody S hS) fun _ _ _ => Keeps.pure _
  | ifTrue | repeatTimes | whileDo | untilDo =>
    rw [Grammar.control]
    refine Consumes.bind hS (hexpr S hS) fun _ T hT => ?_
    exact Consumes.bind hT (hbody T hT) fun _ _ _ => Keeps.pure _
  | ifElse =>
    rw [Grammar.control]
    refine Consumes.bind hS (hexpr S hS) fun _ T hT => ?_
    refine Consumes.bind hT (hbody T hT) fun _ U hU => ?_
    exact Consumes.bind hU (hbody U hU) fun _ _ _ => Keeps.pure _
  | doWhile | doUntil =>
    rw [Grammar.control]
    refine Consumes.bind hS (hbody S hS) fun _ T hT => ?_
    exact Consumes.bind hT (hexpr T hT) fun _ _ _ => Keeps.pure _
  | output =>
    rw [Grammar.control]
    exact Consumes.bind hS (hexpr S hS) fun _ _ _ => Keeps.pure _
  | stop | bye =>
    rw [Grammar.control]
    exact Keeps.pure _

mutual

/-- A block consumes a token: its keyword, or that of its statement. -/
theorem block_consumes {S : List Token} (n : Nat) (hS : Stream S) : Consumes (block n) S := by
  cases n with
  | zero => exact Consumes.outOfFuel
  | succ n =>
    rw [block_succ]
    have hother := Consumes.unexpected (α := Block) hS "block" (.production "block")
    have hcall : Consumes (statement n >>= fun s => pure (Block.call s)) S :=
      Consumes.bind hS (statement_consumes n hS) fun _ _ _ => Keeps.pure _
    refine Proceeds.peek_bind hS fun t ts hts => ?_
    cases hk : t.kind with
    | keyword k =>
      subst hts
      exact controlBlock_consumes n hS hk
    | procedure => exact hcall
    | left d =>
      cases d with
      | parenthesis => exact hcall
      | _ => exact hother
    | _ => exact hother
termination_by n

theorem controlBlock_consumes {k : Keyword} {t : Token} {ts : List Token} (n : Nat)
    (hS : Stream (t :: ts)) (hk : t.kind = .keyword k) :
    Consumes (controlBlock k n) (t :: ts) := by
  rw [controlBlock]
  refine Consumes.bind hS (Consumes.advance hS (by rw [hk]; rfl)) fun _ T hT => ?_
  refine Keeps.bind hT (Keeps.record _) fun _ U hU => ?_
  cases n with
  | zero => cases k <;> exact Consumes.outOfFuel.keeps
  | succ n => exact control_keeps_of k n hU fun T hT => body_consumes n hT
termination_by n

theorem body_consumes {S : List Token} (n : Nat) (hS : Stream S) : Consumes (body n) S := by
  cases n with
  | zero => exact Consumes.outOfFuel
  | succ n =>
    rw [body]
    exact Consumes.bind hS (Consumes.expect hS rfl "body") fun _ _ hT =>
      (blocksUntilBracket_consumes n hT).keeps
termination_by n

theorem blocksUntilBracket_consumes {S : List Token} (n : Nat) (hS : Stream S) :
    Consumes (blocksUntilBracket n) S := by
  cases n with
  | zero => exact Consumes.outOfFuel
  | succ n =>
    rw [blocksUntilBracket]
    refine Proceeds.check_ite hS (fun t ts hts hk => ?_) ?_
    · subst hts
      exact Consumes.bind hS (Consumes.advance hS (by rw [hk]; rfl)) fun _ _ _ => Keeps.pure _
    · refine Proceeds.check_ite hS (fun _ _ _ _ => Consumes.unexpected hS _ _) ?_
      refine Consumes.bind hS (block_consumes n hS) fun _ T hT => ?_
      exact Consumes.bind hT (blocksUntilBracket_consumes n hT) fun _ _ _ => Keeps.pure _
termination_by n

end

theorem blocksUntilEnd_keeps {S : List Token} (n : Nat) (hS : Stream S) :
    Keeps (blocksUntilEnd n) S := by
  induction n generalizing S with
  | zero => exact Consumes.outOfFuel.keeps
  | succ n ih =>
    rw [blocksUntilEnd]
    refine Proceeds.check_ite hS (fun _ _ _ _ => Keeps.pure _) ?_
    refine Consumes.bind hS (block_consumes n hS) fun _ T hT => ?_
    exact Keeps.bind hT (ih hT) fun _ _ _ => Keeps.pure _

/-- Parsing a program takes orderly steps. The empty program consumes nothing. -/
theorem program_keeps {S : List Token} (n : Nat) (hS : Stream S) : Keeps (program n) S := by
  rw [program]
  refine Keeps.bind hS (blocksUntilEnd_keeps n hS) fun _ T hT => ?_
  exact Keeps.bind hT (Keeps.record _) fun _ _ _ => Keeps.pure _

end LogoSyntax

-- SUMMARY: Fuel: an action that ends within some fuel ends in the same way with more of it.
import LogoSyntax.Grammar.Block
import LogoSyntax.Proofs.Reader.Runs

/-!
# Fuel

Running out of fuel is the only effect of having too little of it. Whatever a
production does with some fuel it does with more, so a run can be compared with
one on a longer list of tokens, which needs more fuel.
-/

namespace LogoSyntax

open Parse Grammar

namespace Parse

/-- `y` does the same as `x` on every reader on which `x` does not run out of fuel. -/
def Extends {α : Type} (x y : Parse α) : Prop :=
  ∀ r, (∀ s, x r ≠ .error .outOfFuel s) → y r = x r

namespace Extends

variable {α β : Type} {x x' y y' : Parse α} {k k' : α → Parse β}

theorem refl (x : Parse α) : Extends x x :=
  fun _ _ => rfl

theorem of_outOfFuel : Extends outOfFuel x :=
  fun r h => absurd rfl (h r)

/-- One action after another goes on in the same way if both of them do. -/
theorem bind (hx : Extends x x') (hk : ∀ a, Extends (k a) (k' a)) :
    Extends (x >>= k) (x' >>= k') := by
  intro r h
  change ∀ s, EStateM.bind x k r ≠ .error .outOfFuel s at h
  change EStateM.bind x' k' r = EStateM.bind x k r
  unfold EStateM.bind at h ⊢
  have hxr : x' r = x r := by
    refine hx r fun s hs => h s ?_
    rw [hs]
  rw [hxr]
  cases hr : x r with
  | error e s => rfl
  | ok a s =>
    rw [hr] at h
    exact hk a s h

theorem ite (c : Prop) [Decidable c] (hx : Extends x x') (hy : Extends y y') :
    Extends (if c then x else y) (if c then x' else y') := by
  split
  · exact hx
  · exact hy

/-- An action that ends goes on ending in the same way. -/
theorem runs {S T : List Token} {o : Except SyntaxError α} (h : Extends x y)
    (hx : Runs x S o T) : Runs y S o T := by
  intro r hr
  obtain ⟨r', hr', hp⟩ := hx r hr
  refine ⟨r', ?_, hp⟩
  rw [← hr']
  refine h r fun s hs => ?_
  rw [hs] at hr'
  cases o <;> cases hr'

end Extends

end Parse

/-! ## Productions -/

mutual

theorem primary_extends {m n : Nat} (h : m ≤ n) : Extends (primary m) (primary n) := by
  cases m with
  | zero => exact .of_outOfFuel
  | succ m =>
    obtain ⟨n, rfl⟩ : ∃ k, n = k + 1 := ⟨n - 1, by omega⟩
    rw [primary, primary]
    refine .bind (.refl _) fun t => ?_
    cases t.kind with
    | left d =>
      cases d with
      | parenthesis => exact group_extends (by omega)
      | _ => exact .refl _
    | _ => exact .refl _
termination_by m

theorem group_extends {m n : Nat} (h : m ≤ n) : Extends (group m) (group n) := by
  cases m with
  | zero => exact .of_outOfFuel
  | succ m =>
    obtain ⟨n, rfl⟩ : ∃ k, n = k + 1 := ⟨n - 1, by omega⟩
    rw [group, group]
    exact .bind (.refl _) fun _ => .bind (expr_extends (by omega)) fun _ => .refl _
termination_by m

theorem operand_extends {m n : Nat} (h : m ≤ n) : Extends (operand m) (operand n) := by
  cases m with
  | zero => exact .of_outOfFuel
  | succ m =>
    obtain ⟨n, rfl⟩ : ∃ k, n = k + 1 := ⟨n - 1, by omega⟩
    rw [operand, operand]
    have hprimary : Extends (primary m) (primary n) := primary_extends (by omega)
    refine .bind (.refl _) fun b => .ite _ ?_ hprimary
    exact .bind (.refl _) fun _ => .bind hprimary fun _ => .refl _
termination_by m

/-- An expression that is parsed or refused within some fuel is so with more. -/
theorem expr_extends {m n : Nat} (h : m ≤ n) : Extends (expr m) (expr n) := by
  cases m with
  | zero => exact .of_outOfFuel
  | succ m =>
    obtain ⟨n, rfl⟩ : ∃ k, n = k + 1 := ⟨n - 1, by omega⟩
    rw [expr, expr]
    exact .bind (operand_extends (by omega)) fun first => operations_extends (by omega)
termination_by m

theorem operations_extends {lhs : Expr} {m n : Nat} (h : m ≤ n) :
    Extends (operations lhs m) (operations lhs n) := by
  cases m with
  | zero => exact .of_outOfFuel
  | succ m =>
    obtain ⟨n, rfl⟩ : ∃ k, n = k + 1 := ⟨n - 1, by omega⟩
    rw [operations, operations]
    refine .bind (.refl _) fun t => ?_
    cases t.kind with
    | sign op =>
      refine .bind (.refl _) fun _ => .bind (operand_extends (by omega)) fun rhs => ?_
      exact operations_extends (by omega)
    | _ => exact .refl _
termination_by m

end

mutual

theorem item_extends {m n : Nat} (h : m ≤ n) : Extends (item m) (item n) := by
  cases m with
  | zero => exact .of_outOfFuel
  | succ m =>
    obtain ⟨n, rfl⟩ : ∃ k, n = k + 1 := ⟨n - 1, by omega⟩
    rw [item, item]
    refine .bind (.refl _) fun t => ?_
    cases t.kind with
    | left d =>
      cases d with
      | parenthesis => exact .bind (group_extends (by omega)) fun _ => .refl _
      | bracket => exact .bind (sequence_extends (by omega)) fun _ => .refl _
      | brace => exact .bind (sequence_extends (by omega)) fun _ => .refl _
    | _ => exact .refl _
termination_by m

theorem sequence_extends {d : Delimiter} {production : String} {m n : Nat} (h : m ≤ n) :
    Extends (sequence d production m) (sequence d production n) := by
  cases m with
  | zero => exact .of_outOfFuel
  | succ m =>
    obtain ⟨n, rfl⟩ : ∃ k, n = k + 1 := ⟨n - 1, by omega⟩
    rw [Grammar.sequence, Grammar.sequence]
    exact .bind (.refl _) fun _ => itemsUntil_extends (by omega)
termination_by m

theorem itemsUntil_extends {d : Delimiter} {production : String} {m n : Nat} (h : m ≤ n) :
    Extends (itemsUntil d production m) (itemsUntil d production n) := by
  cases m with
  | zero => exact .of_outOfFuel
  | succ m =>
    obtain ⟨n, rfl⟩ : ∃ k, n = k + 1 := ⟨n - 1, by omega⟩
    rw [itemsUntil, itemsUntil]
    refine .bind (.refl _) fun _ => .ite _ (.refl _) (.bind (.refl _) fun _ => .ite _ (.refl _) ?_)
    refine .bind (item_extends (by omega)) fun _ => ?_
    exact .bind (itemsUntil_extends (by omega)) fun _ => .refl _
termination_by m

end

theorem itemsWhile_extends {m n : Nat} (h : m ≤ n) : Extends (itemsWhile m) (itemsWhile n) := by
  induction m generalizing n with
  | zero => exact .of_outOfFuel
  | succ m ih =>
    obtain ⟨n, rfl⟩ : ∃ k, n = k + 1 := ⟨n - 1, by omega⟩
    rw [itemsWhile, itemsWhile]
    refine .bind (.refl _) fun _ => .ite _ ?_ (.refl _)
    exact .bind (item_extends (by omega)) fun _ => .bind (ih (by omega)) fun _ => .refl _

/-- A statement that is parsed or refused within some fuel is so with more. -/
theorem statement_extends {m n : Nat} (h : m ≤ n) : Extends (statement m) (statement n) := by
  rw [statement, statement]
  refine .bind (.refl _) fun _ => .ite _ ?_ ?_
  · refine .bind (.refl _) fun _ => .bind (.refl _) fun _ => ?_
    exact .bind (itemsUntil_extends h) fun _ => .refl _
  · refine .bind (.refl _) fun _ => .bind (item_extends h) fun _ => ?_
    exact .bind (itemsWhile_extends h) fun _ => .refl _

mutual

/-- A block that is parsed or refused within some fuel is so with more. -/
theorem block_extends {m n : Nat} (h : m ≤ n) : Extends (block m) (block n) := by
  cases m with
  | zero => exact .of_outOfFuel
  | succ m =>
    obtain ⟨n, rfl⟩ : ∃ k, n = k + 1 := ⟨n - 1, by omega⟩
    rw [block, block]
    have hcall : Extends (statement m >>= fun s => pure (Block.call s))
        (statement n >>= fun s => pure (Block.call s)) :=
      .bind (statement_extends (by omega)) fun _ => .refl _
    refine .bind (.refl _) fun t => ?_
    cases t.kind with
    | keyword k =>
      exact .bind (.refl _) fun _ => .bind (.refl _) fun _ => control_extends (by omega)
    | procedure => exact hcall
    | left d =>
      cases d with
      | parenthesis => exact hcall
      | _ => exact .refl _
    | _ => exact .refl _
termination_by m

theorem control_extends {k : Keyword} {m n : Nat} (h : m ≤ n) :
    Extends (Grammar.control k m) (Grammar.control k n) := by
  cases m with
  | zero =>
    cases k <;> exact .of_outOfFuel
  | succ m =>
    obtain ⟨n, rfl⟩ : ∃ k, n = k + 1 := ⟨n - 1, by omega⟩
    have hexpr : Extends (expr m) (expr n) := expr_extends (by omega)
    have hbody : Extends (body m) (body n) := body_extends (by omega)
    cases k with
    | run =>
      rw [Grammar.control, Grammar.control]
      exact .bind hbody fun _ => .refl _
    | ifTrue | repeatTimes | whileDo | untilDo =>
      rw [Grammar.control, Grammar.control]
      exact .bind hexpr fun _ => .bind hbody fun _ => .refl _
    | ifElse =>
      rw [Grammar.control, Grammar.control]
      exact .bind hexpr fun _ => .bind hbody fun _ => .bind hbody fun _ => .refl _
    | doWhile | doUntil =>
      rw [Grammar.control, Grammar.control]
      exact .bind hbody fun _ => .bind hexpr fun _ => .refl _
    | output =>
      rw [Grammar.control, Grammar.control]
      exact .bind hexpr fun _ => .refl _
    | stop | bye =>
      rw [Grammar.control, Grammar.control]
      exact .refl _
termination_by m

theorem body_extends {m n : Nat} (h : m ≤ n) : Extends (body m) (body n) := by
  cases m with
  | zero => exact .of_outOfFuel
  | succ m =>
    obtain ⟨n, rfl⟩ : ∃ k, n = k + 1 := ⟨n - 1, by omega⟩
    rw [body, body]
    exact .bind (.refl _) fun _ => blocksUntilBracket_extends (by omega)
termination_by m

theorem blocksUntilBracket_extends {m n : Nat} (h : m ≤ n) :
    Extends (blocksUntilBracket m) (blocksUntilBracket n) := by
  cases m with
  | zero => exact .of_outOfFuel
  | succ m =>
    obtain ⟨n, rfl⟩ : ∃ k, n = k + 1 := ⟨n - 1, by omega⟩
    rw [blocksUntilBracket, blocksUntilBracket]
    refine .bind (.refl _) fun _ => .ite _ (.refl _) (.bind (.refl _) fun _ => .ite _ (.refl _) ?_)
    refine .bind (block_extends (by omega)) fun _ => ?_
    exact .bind (blocksUntilBracket_extends (by omega)) fun _ => .refl _
termination_by m

end

theorem blocksUntilEnd_extends {m n : Nat} (h : m ≤ n) :
    Extends (blocksUntilEnd m) (blocksUntilEnd n) := by
  induction m generalizing n with
  | zero => exact .of_outOfFuel
  | succ m ih =>
    obtain ⟨n, rfl⟩ : ∃ k, n = k + 1 := ⟨n - 1, by omega⟩
    rw [blocksUntilEnd, blocksUntilEnd]
    refine .bind (.refl _) fun _ => .ite _ (.refl _) ?_
    exact .bind (block_extends (by omega)) fun _ => .bind (ih (by omega)) fun _ => .refl _

/-- A program that is parsed or rejected within some fuel is parsed or rejected
    in the same way with more. -/
theorem program_extends {m n : Nat} (h : m ≤ n) : Extends (program m) (program n) := by
  rw [program, program]
  exact .bind (blocksUntilEnd_extends h) fun _ => .refl _

end LogoSyntax

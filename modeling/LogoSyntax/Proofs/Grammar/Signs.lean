-- SUMMARY: Where a minus sign negates, and that no minus sign follows there.
import LogoSyntax.Proofs.Grammar.Program

/-!
# Minus signs that negate

A minus sign subtracts behind the end of an operand and negates everywhere else. Which
of both it does depends on the token in front of it alone, so an automaton that keeps
what stands in front of the next token can tell (`Front`). It stops at a minus sign
behind one that negates, and gets through every program. No program therefore goes on
with a minus sign there (`not_viable_behind_negation`).
-/

namespace LogoSyntax

/-- Whether an operand can end in a token of this kind. -/
def TokenKind.endsOperand : TokenKind → Bool
  | number | variableName | right .parenthesis => true
  | _ => false

/-- The tokens end in a minus sign that negates: no operand ends in front of it. -/
def EndsInNegation (ts : List Token) : Prop :=
  ∃ front minus, ts = front ++ [minus] ∧ minus.kind = .sign .sub ∧
    ∀ t, front.getLast? = some t → t.kind.endsOperand = false

/-! ## The automaton -/

/-- What stands directly in front of a token: the end of an operand, a minus sign that
    negates, or neither. -/
inductive Front where
  | operand | negation | other
deriving DecidableEq, Repr

namespace Front

/-- What stands in front of the next token. Behind a minus sign that negates there is
    no other minus sign. -/
def step : Front → TokenKind → Option Front
  | other, .sign .sub => some negation
  | negation, .sign .sub => none
  | _, kind => some (if kind.endsOperand then operand else other)

/-- What stands in front of the token behind some tokens. -/
def after (f : Front) (ts : List Token) : Option Front :=
  ts.foldlM (fun f t => f.step t.kind) f

variable {f g : Front} {t : Token} {ts us : List Token}

@[simp] theorem after_nil (f : Front) : f.after [] = some f := rfl

theorem after_cons (f : Front) (t : Token) (ts : List Token) :
    f.after (t :: ts) = (f.step t.kind).bind (·.after ts) := rfl

theorem after_append (f : Front) (ts us : List Token) :
    f.after (ts ++ us) = (f.after ts).bind (·.after us) :=
  List.foldlM_append ..

theorem step_of_endsOperand {kind : TokenKind} (h : kind.endsOperand = true) (f : Front) :
    f.step kind = some .operand := by
  cases kind with
  | sign op => cases h
  | _ => cases f <;> simp [step, h]

theorem step_of_ne {kind : TokenKind} (hne : kind ≠ .sign .sub) (h : kind.endsOperand = false)
    (f : Front) : f.step kind = some .other := by
  cases kind with
  | sign op =>
    cases op with
    | sub => exact absurd rfl hne
    | _ => cases f <;> rfl
  | _ => cases f <;> simp [step, h]

/-- A sign behind an operand stands between two operands. -/
theorem step_operand_sign (op : Operator) : operand.step (.sign op) = some .other := by
  cases op <;> rfl

theorem after_cons_of_step (h : f.step t.kind = some g) : f.after (t :: ts) = g.after ts := by
  rw [after_cons, h, Option.bind_some]

theorem after_append_of (h : f.after ts = some g) : f.after (ts ++ us) = g.after us := by
  rw [after_append, h, Option.bind_some]

/-- In front of the next token an operand ends if the last token ends one. -/
theorem endsOperand_of_after (h : f.after ts = some .operand) (hf : f ≠ .operand) :
    ∃ t, ts.getLast? = some t ∧ t.kind.endsOperand = true := by
  rcases List.eq_nil_or_concat ts with rfl | ⟨front, t, rfl⟩
  · exact absurd (Option.some.inj h) hf
  · rw [List.concat_eq_append, after_append] at h
    obtain ⟨g, -, hg⟩ := Option.bind_eq_some_iff.1 h
    refine ⟨t, by simp, ?_⟩
    rw [after_cons, Option.bind_eq_some_iff] at hg
    obtain ⟨g', hstep, hg'⟩ := hg
    obtain rfl := Option.some.inj hg'
    cases hends : t.kind.endsOperand with
    | true => rfl
    | false =>
      by_cases hminus : t.kind = .sign .sub
      · rw [hminus] at hstep
        cases g <;> cases hstep
      · rw [step_of_ne hminus hends] at hstep
        cases hstep

/-! ## Phrases that no minus sign ends -/

/-- Wherever the tokens stand but behind a minus sign that negates, they do not end
    behind one. -/
def Settles (ts : List Token) : Prop :=
  ∀ f : Front, f ≠ .negation → ∃ g : Front, g ≠ .negation ∧ f.after ts = some g

namespace Settles

theorem nil : Settles [] :=
  fun f hf => ⟨f, hf, rfl⟩

/-- Of two lists, the second one does not stand behind a minus sign that negates. -/
theorem append (h : Settles ts) (h' : Settles us) : Settles (ts ++ us) := by
  intro f hf
  obtain ⟨g, hg, hts⟩ := h f hf
  rw [after_append_of hts]
  exact h' g hg

theorem singleton (h : t.kind ≠ .sign .sub) : Settles [t] := by
  intro f _
  cases hends : t.kind.endsOperand with
  | true => exact ⟨.operand, by simp, after_cons_of_step (step_of_endsOperand hends f)⟩
  | false => exact ⟨.other, by simp, after_cons_of_step (step_of_ne h hends f)⟩

theorem cons (h : Settles ts) (ht : t.kind ≠ .sign .sub) : Settles (t :: ts) :=
  (singleton ht).append h

theorem enclosed {opening closing : Token} (h : Settles ts) (ho : opening.kind ≠ .sign .sub)
    (hc : closing.kind ≠ .sign .sub) : Settles (opening :: (ts ++ [closing])) :=
  (h.append (singleton hc)).cons ho

end Settles

end Front

open Front

/-! ## Derivations -/

mutual

/-- Behind a primary an operand ends, whatever is in front of it. -/
theorem DerivesPrimary.after {ts : List Token} {e : Expr} (h : DerivesPrimary ts e) (f : Front) :
    f.after ts = some .operand := by
  match h with
  | .number h => exact after_cons_of_step (step_of_endsOperand (by rw [h.1]; rfl) f)
  | .variableName h => exact after_cons_of_step (step_of_endsOperand (by rw [h.1]; rfl) f)
  | .group h => exact h.after f

theorem DerivesGroup.after {ts : List Token} {e : Expr} (h : DerivesGroup ts e) (f : Front) :
    f.after ts = some .operand := by
  match h with
  | .mk ho he hc =>
    rw [after_cons_of_step (step_of_ne (by simp [ho]) (by rw [ho]; rfl) f),
      after_append_of he.after]
    exact after_cons_of_step (step_of_endsOperand (by rw [hc]; rfl) _)

/-- Behind an operand an operand ends. In front of it no operand ends, so that its own minus
    sign negates. -/
theorem DerivesOperand.after {ts : List Token} {e : Expr} (h : DerivesOperand ts e) :
    Front.other.after ts = some .operand := by
  match h with
  | .plain h => exact h.after _
  | .negated hm h =>
    rw [after_cons_of_step (by rw [hm]; rfl)]
    exact h.after .negation

/-- Behind operations an operand ends, as one does in front of them. So their minus signs
    subtract. -/
theorem DerivesOperations.after {ts : List Token} {steps : List (Operator × Expr)}
    (h : DerivesOperations ts steps) : Front.operand.after ts = some .operand := by
  match h with
  | .nil => rfl
  | .cons hs he hr =>
    rw [after_cons_of_step (by rw [hs]; exact step_operand_sign _), after_append_of he.after]
    exact hr.after

theorem DerivesExpr.after {ts : List Token} {e : Expr} (h : DerivesExpr ts e) :
    Front.other.after ts = some .operand := by
  match h with
  | .mk hf hr =>
    rw [after_append_of hf.after]
    exact hr.after

end

mutual

/-- An item does not end in a minus sign that negates, wherever it stands. -/
theorem DerivesItem.settles {ts : List Token} {i : Item} (h : DerivesItem ts i) : Settles ts := by
  match h with
  | .group h => exact fun f _ => ⟨.operand, by simp, h.after f⟩
  | .list h => exact h.settles
  | .array h => exact h.settles
  | .word h => exact .singleton (by simp [h.1])
  | .number h => exact .singleton (by simp [h.1])
  | .variableName h => exact .singleton (by simp [h.1])

theorem DerivesSequence.settles {d : Delimiter} {ts : List Token} {items : List Item}
    (h : DerivesSequence d ts items) : Settles ts := by
  match h with
  | .mk ho h hc => exact h.settles.enclosed (by simp [ho]) (by simp [hc])

theorem DerivesItems.settles {ts : List Token} {items : List Item} (h : DerivesItems ts items) :
    Settles ts := by
  match h with
  | .nil => exact .nil
  | .cons hi h => exact hi.settles.append h.settles

end

theorem DerivesStatement.settles {ts : List Token} {s : Statement} (h : DerivesStatement ts s) :
    Settles ts := by
  cases h with
  | plain hp hi h => exact (hi.settles.append h.settles).cons (by simp [hp.1])
  | parenthesized ho hp h hc =>
    exact (h.settles.enclosed (by simp [hp.1]) (by simp [hc])).cons (by simp [ho])

mutual

/-- Behind a keyword and what it takes, no minus sign negates. -/
theorem DerivesControl.after {k : Keyword} {ts : List Token} {b : Block}
    (h : DerivesControl k ts b) : ∃ g : Front, g ≠ .negation ∧ Front.other.after ts = some g := by
  match h with
  | .run hb => exact ⟨.other, by simp, hb.after _ (by simp)⟩
  | .ifTrue he hb | .repeatTimes he hb | .whileDo he hb | .untilDo he hb =>
    rw [after_append_of he.after]
    exact ⟨.other, by simp, hb.after _ (by simp)⟩
  | .ifElse he hy hn =>
    rw [after_append_of he.after, after_append_of (hy.after _ (by simp))]
    exact ⟨.other, by simp, hn.after _ (by simp)⟩
  | .doWhile hb he | .doUntil hb he =>
    rw [after_append_of (hb.after _ (by simp))]
    exact ⟨.operand, by simp, he.after⟩
  | .output he => exact ⟨.operand, by simp, he.after⟩
  | .stop | .bye => exact ⟨.other, by simp, rfl⟩

theorem DerivesBlock.settles {ts : List Token} {b : Block} (h : DerivesBlock ts b) :
    Settles ts := by
  match h with
  | .control hk h =>
    intro f _
    rw [after_cons_of_step (step_of_ne (by simp [hk]) (by rw [hk]; rfl) f)]
    exact h.after
  | .call h => exact h.settles

theorem DerivesBody.after {ts : List Token} {blocks : List Block} (h : DerivesBody ts blocks)
    (f : Front) (hf : f ≠ .negation) : f.after ts = some .other := by
  match h with
  | @DerivesBody.mk opening closing us blocks ho h hc =>
    have hopening : opening.kind ≠ .sign .sub := by simp [ho]
    obtain ⟨g, -, hg⟩ := h.settles.cons hopening f hf
    rw [← List.cons_append, after_append_of hg]
    exact after_cons_of_step (step_of_ne (by simp [hc]) (by rw [hc]; rfl) g)

/-- The automaton gets through every derivation of blocks. -/
theorem DerivesBlocks.settles {ts : List Token} {blocks : List Block}
    (h : DerivesBlocks ts blocks) : Settles ts := by
  match h with
  | .nil => exact .nil
  | .cons hb h => exact hb.settles.append h.settles

end

/-- Behind a minus sign that negates, no program goes on with a minus sign. -/
theorem not_viable_behind_negation {ts : List Token} {minus : Token} (h : EndsInNegation ts)
    (hminus : minus.kind = .sign .sub) : ¬ Viable (ts ++ [minus]) := by
  rintro ⟨more, p, -, hp⟩
  obtain ⟨front, negating, rfl, hnegating, hfront⟩ := h
  obtain ⟨g, -, hg⟩ := DerivesBlocks.settles hp .other (by simp)
  rw [List.append_assoc, List.append_assoc, after_append] at hg
  obtain ⟨f, hf, hg⟩ := Option.bind_eq_some_iff.1 hg
  -- No operand ends in front of the first minus sign, so it negates.
  have hne : f ≠ .operand := by
    rintro rfl
    obtain ⟨t, ht, hends⟩ := endsOperand_of_after hf (by simp)
    simp [hfront t ht] at hends
  cases f with
  | operand => exact hne rfl
  | negation =>
    rw [List.singleton_append, after_cons, hnegating] at hg
    cases hg
  | other =>
    rw [List.singleton_append, after_cons_of_step (by rw [hnegating]; rfl), List.singleton_append,
      after_cons, hminus] at hg
    cases hg

end LogoSyntax

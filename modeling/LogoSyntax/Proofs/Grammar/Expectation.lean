-- SUMMARY: What a syntax error says was expected is true, except behind a minus sign that negates.
import Mathlib
import LogoSyntax.Proofs.Grammar.Actions
import LogoSyntax.Proofs.Grammar.Prolonging

/-!
# Expectations

A syntax error names a kind of token, or a production that a token could have begun.
That is truthful if the token that was found is no such token, and if every such token
goes on to a program behind the tokens in front of it (`Expected.Truthful`).

The parser explains each refusal (`Refuses.explains`), but one explanation is too short
for what the error says: an operand can begin with a minus sign, and the parser uses the
same expectation in front of an operand and behind the minus sign that negates it. The
expectation is truthful in all other places, and in this one it is not
(`truthful_iff_not_behind_negation`).
-/

namespace LogoSyntax

open Parse Grammar

/-- The token that was found is not what was expected, and whatever was expected goes on
    to a program behind the tokens in front of it. -/
def Expected.Truthful (expected : Expected) (before : List Token) (found : TokenKind) : Prop :=
  expected.admits false found = false ∧
    ∀ s : Token, s.Classified → expected.admits false s.kind = true → Viable (before ++ [s])

/-! ## Operands -/

namespace Expected

theorem admits_operand (negated : Bool) (kind : TokenKind) :
    (production "operand").admits negated kind =
      (kind.startsPrimary || (!negated && kind == .sign .sub)) := rfl

/-- A minus sign in front makes a difference to an operand alone. -/
theorem admits_of_ne_operand {expected : Expected} (h : expected ≠ production "operand")
    (negated : Bool) (kind : TokenKind) :
    expected.admits negated kind = expected.admits false kind := by
  cases expected with
  | token => rfl
  | production name =>
    have hname : name ≠ "operand" := fun hname => h (by rw [hname])
    simp [admits, hname]

end Expected

/-- Tokens that end in a minus sign end in one that negates, or in one behind the end of
    an operand. -/
theorem minus_cases {ts : List Token} (h : nextKind ts.reverse = some (.sign .sub)) :
    EndsInNegation ts ∨ ∃ front last minus, ts = front ++ [last, minus] ∧
      last.kind.endsOperand = true ∧ minus.kind = .sign .sub := by
  rcases List.eq_nil_or_concat ts with rfl | ⟨before, minus, rfl⟩
  · cases h
  rw [List.concat_eq_append] at h ⊢
  have hminus : minus.kind = .sign .sub := by simpa using h
  rcases List.eq_nil_or_concat before with rfl | ⟨front, last, rfl⟩
  · exact .inl ⟨[], minus, rfl, hminus, by simp⟩
  rw [List.concat_eq_append]
  cases hends : last.kind.endsOperand with
  | true => exact .inr ⟨front, last, minus, by simp, hends, hminus⟩
  | false => exact .inl ⟨front ++ [last], minus, rfl, hminus, by simpa using hends⟩

section

variable {us : List Token} {t : Token} {n : Nat} {production : String} {expected : Expected}

/-- Behind a minus sign that negates, an operand is never a truthful expectation. -/
theorem Expected.Truthful.not_endsInNegation {found : TokenKind}
    (h : (Expected.production "operand").Truthful us found) : ¬ EndsInNegation us := by
  intro hneg
  have hmarker : (TokenKind.sign .sub).isMarker = false := rfl
  obtain ⟨minus, hcl, hk⟩ := Token.exists_classified hmarker
  refine not_viable_behind_negation hneg hk (h.2 minus hcl ?_)
  simp [Expected.admits_operand, hk]

/-- Where primary expressions go on behind a minus sign that subtracts, operands do. -/
theorem operand_truthful (hcl : ∀ u ∈ us, u.Classified) (hviable : Viable us)
    (hnot : ¬ Viable (us ++ [t])) (hminus : nextKind us.reverse = some (.sign .sub))
    (ht : t.kind.startsPrimary = false)
    (hs : ∀ s : Token, s.Classified → s.kind.startsPrimary = true → Viable (us ++ [s]))
    (hneg : ¬ EndsInNegation us) : (Expected.production "operand").Truthful us t.kind := by
  obtain ⟨front, last, minus, rfl, hlast, hk⟩ := (minus_cases hminus).resolve_left hneg
  have hgoes {s : Token} (hs : s.kind = .sign .sub) : Viable (front ++ [last, minus] ++ [s]) :=
    hviable.minus_behind_subtraction hlast hk (hcl minus (by simp)).matched hs
  have hne : t.kind ≠ .sign .sub := fun ht => hnot (hgoes ht)
  refine ⟨by simp [Expected.admits_operand, ht, hne], fun s hcls hadm => ?_⟩
  rw [Expected.admits_operand] at hadm
  cases hp : s.kind.startsPrimary with
  | true => exact hs s hcls hp
  | false => exact hgoes (by simpa [hp] using hadm)

/-- A refused token begins no primary expression where an operand was expected, and
    every primary expression goes on there. -/
theorem Refuses.primary (h : Refuses noKind (program n) DerivesProgram us t production
    (.production "operand")) : t.kind.startsPrimary = false ∧
      ∀ s : Token, s.Classified → s.kind.startsPrimary = true → Viable (us ++ [s]) := by
  obtain ⟨-, negated, -, ht, hs⟩ := h.explains
  rw [Expected.admits_operand, Bool.or_eq_false_iff] at ht
  refine ⟨ht.1, fun s hcl hp => hs s hcl ?_⟩
  rw [Expected.admits_operand, hp, Bool.true_or]

/-- What was expected at a refused token is truthful, unless it is an operand behind a
    minus sign that negates. -/
theorem Refuses.truthful_iff
    (h : Refuses noKind (program n) DerivesProgram us t production expected)
    (hcl : ∀ u ∈ us, u.Classified) :
    expected.Truthful us t.kind ↔ ¬ (expected = .production "operand" ∧ EndsInNegation us) := by
  obtain ⟨-, negated, hminus, ht, hs⟩ := h.explains
  by_cases hoperand : expected = .production "operand"
  · subst hoperand
    refine ⟨fun htruthful hneg => htruthful.not_endsInNegation hneg.2, fun hneg => ?_⟩
    cases negated with
    | false => exact ⟨ht, hs⟩
    | true =>
      obtain ⟨hprimary, hgoes⟩ := h.primary
      exact operand_truthful hcl h.explains.completable h.not_viable (hminus rfl) hprimary hgoes
        fun hends => hneg ⟨rfl, hends⟩
  · simp only [Expected.admits_of_ne_operand hoperand negated] at ht hs
    exact ⟨fun _ hneg => hoperand hneg.1, fun _ => ⟨ht, hs⟩⟩

end

/-! ## Sources -/

/-- An error is at the first token that rules out every program, with a diagnosis of the
    table. What was expected there is truthful, unless it is an operand and the tokens
    before end in a minus sign that negates. Then no minus sign goes on, but every
    primary expression does, and the token that was found begins none. -/
theorem truthful_iff_not_behind_negation (source : String) (e : SyntaxError)
    (h : parse source = .error (.syntaxError e)) :
    ∃ before t after, tokenize source = before ++ t :: after ∧ t.kind ≠ .endOfLine ∧
      (e.found = t.kind ∧ e.raw = t.raw ∧ e.line = t.line ∧ e.col = t.col) ∧
      Viable (Token.significant before) ∧ ¬ Viable (Token.significant before ++ [t]) ∧
      Diagnosis e.production e.expected ∧
      (e.expected.Truthful (Token.significant before) e.found ↔
        ¬ (e.expected = .production "operand" ∧ EndsInNegation (Token.significant before))) ∧
      (e.expected = .production "operand" → e.found.startsPrimary = false ∧
        ∀ s : Token, s.Classified → s.kind.startsPrimary = true →
          Viable (Token.significant before ++ [s])) := by
  obtain ⟨n, us, t, rest, production, expected, hus, hrefuses, rfl⟩ := refuses_of_error h
  have hcl : ∀ u ∈ us, u.Classified := by
    have hstream := stream_tokenize source
    rw [hus] at hstream
    exact (hstream.split (by simp)).1
  obtain ⟨before, after, hts, rfl, hk⟩ := significant_eq_append_cons hus
  refine ⟨before, t, after, hts, hk, ⟨rfl, rfl, rfl, rfl⟩, hrefuses.explains.completable,
    hrefuses.not_viable, diagnosis_of_parse h, hrefuses.truthful_iff hcl, ?_⟩
  rintro rfl
  exact hrefuses.primary

/-- Among the items of a list, a keyword is refused because an item was expected, and
    every item goes on there. -/
theorem truthful_among_items :
    parse "print [ 1 RUN" =
        .error (.syntaxError ⟨"item", .production "item", .keyword .run, "RUN", 1, 11⟩) ∧
      ∃ before t after, tokenize "print [ 1 RUN" = before ++ t :: after ∧
        (t.kind, t.line, t.col) = (.keyword .run, 1, 11) ∧
        (Expected.production "item").Truthful (Token.significant before) t.kind := by
  have herror : parse "print [ 1 RUN" =
      .error (.syntaxError ⟨"item", .production "item", .keyword .run, "RUN", 1, 11⟩) := by
    cbv
  obtain ⟨before, t, after, hts, -, ⟨hfound, -, hline, hcol⟩, -, -, -, htruthful, -⟩ :=
    truthful_iff_not_behind_negation _ _ herror
  refine ⟨herror, before, t, after, hts, ?_, hfound ▸ htruthful.2 (by simp)⟩
  rw [← hfound, ← hline, ← hcol]

/-- Behind a minus sign that negates, another one is refused because an operand was
    expected, which it begins, and no program goes on with it. -/
theorem not_truthful_behind_negation :
    parse "OUTPUT - - 1" =
        .error (.syntaxError ⟨"operand", .production "operand", .sign .sub, "-", 1, 10⟩) ∧
      ∃ before t after, tokenize "OUTPUT - - 1" = before ++ t :: after ∧
        (t.kind, t.line, t.col) = (.sign .sub, 1, 10) ∧
        (Expected.production "operand").admits false t.kind = true ∧
        ¬ Viable (Token.significant before ++ [t]) ∧
        ¬ (Expected.production "operand").Truthful (Token.significant before) t.kind := by
  let output : Token := ⟨.keyword .output, "OUTPUT", none, true, 1, 1⟩
  let minus : Token := ⟨.sign .sub, "-", none, true, 1, 8⟩
  let second : Token := ⟨.sign .sub, "-", none, true, 1, 10⟩
  let rest : List Token := [⟨.number, "1", some "1", true, 1, 12⟩, .marker .noMore false 1 13]
  have hts : tokenize "OUTPUT - - 1" = [output, minus] ++ second :: rest := by cbv
  have hneg : EndsInNegation (Token.significant [output, minus]) :=
    ⟨[output], minus, rfl, rfl, by decide⟩
  exact ⟨by cbv, [output, minus], second, rest, hts, rfl, rfl,
    not_viable_behind_negation hneg rfl, fun h => h.not_endsInNegation hneg⟩

end LogoSyntax

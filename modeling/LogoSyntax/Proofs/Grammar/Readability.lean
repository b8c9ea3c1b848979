-- SUMMARY: Unique readability: the source form of an expression is parsed to that expression or to none, and is the source form of no other one.
import LogoSyntax.Proofs.Grammar.Display
import LogoSyntax.Proofs.Grammar.WellFormed

/-!
# Unique readability

The source form puts every operation in parentheses, so where an expression ends
shows in its own symbols: no text behind it can move its end
(`Expr.symbols_append_inj`). An expression is therefore told by its source form,
even one that is not parsed from it.

Whatever way an expression was built, parsing its source form never gives
another expression (`Expr.output_of_source_form`).
-/

namespace LogoSyntax

open Text

namespace Expr

/-! ## Leaves of any expression -/

/-- A leaf with a text of its shape is written as one word that stands for it. -/
theorem lexical_of_fits {e : Expr} (h : ∀ a ∈ e.atoms, a.Fits) : e.Lexical := by
  induction e with
  | binary op lhs rhs ihl ihr =>
    obtain ⟨hl, hr⟩ := List.forall_mem_append.1 h
    exact ⟨ihl hl, ihr hr⟩
  | negate e ih => exact ih h
  | number text =>
    have hfits : (Atom.number text).Fits := List.forall_mem_singleton.1 h
    have hc : classify text.toList = some (.number, some text) := hfits.classify_spelling
    exact ⟨isWord_of_classify (by simp [hc]), hc⟩
  | variableName name =>
    have hfits : (Atom.variableName name).Fits := List.forall_mem_singleton.1 h
    have hc : classify (':' :: name.toList) = some (.variableName, some name) :=
      hfits.classify_spelling
    exact ⟨isWord_of_classify (by simp [hc]), hc⟩

/-! ## Where an expression ends -/

/-- The symbols of an expression tell the expression and its end, whatever follows. -/
theorem symbols_append_inj {e e' : Expr} {rest rest' : List (TokenKind × Option String)}
    (h : e.symbols ++ rest = e'.symbols ++ rest') : e = e' ∧ rest = rest' := by
  induction e generalizing e' rest rest' with
  | binary op lhs rhs ihl ihr =>
    cases e' with
    | binary op' lhs' rhs' =>
      simp only [symbols, List.cons_append, List.append_assoc, List.nil_append, List.cons.injEq,
        true_and] at h
      obtain ⟨rfl, hsign⟩ := ihl h
      simp only [List.cons.injEq, Prod.mk.injEq, TokenKind.sign.injEq, and_true] at hsign
      obtain ⟨rfl, hbehind⟩ := hsign
      obtain ⟨rfl, hclosing⟩ := ihr hbehind
      exact ⟨rfl, (List.cons.inj hclosing).2⟩
    | _ => simp [symbols] at h
  | negate e ih =>
    cases e' with
    | negate e' =>
      simp only [symbols, List.cons_append, List.cons.injEq, true_and] at h
      obtain ⟨rfl, hrest⟩ := ih h
      exact ⟨rfl, hrest⟩
    | _ => simp [symbols] at h
  | number text =>
    cases e' with
    | number text' => simpa [symbols] using h
    | _ => simp [symbols] at h
  | variableName name =>
    cases e' with
    | variableName name' => simpa [symbols] using h
    | _ => simp [symbols] at h

/-- The words of the source form are the words of its text. -/
theorem Lexical.words_toText {e : Expr} (h : e.Lexical) : Text.words e.toText.toList = e.words := by
  rw [toText, String.toList_ofList, ← spread_words, words_spread h.isWord]

/-- Different expressions have different source forms. -/
theorem Lexical.toText_inj {e e' : Expr} (h : e.Lexical) (h' : e'.Lexical)
    (htext : e.toText = e'.toText) : e = e' := by
  have hwords : e.words = e'.words := by rw [← h.words_toText, htext, h'.words_toText]
  have hclassified : e.symbols.map some = e'.symbols.map some := by
    rw [← h.classify_words, hwords, h'.classify_words]
  have hsymbols : e.symbols = e'.symbols :=
    List.map_injective_iff.2 (Option.some_injective _) hclassified
  have happend : e.symbols ++ [] = e'.symbols ++ [] := by rw [hsymbols]
  exact (symbols_append_inj happend).1

/-! ## Reading back -/

/-- The source form of an expression whose leaves have texts of their shapes is
    parsed to no other expression. It is rejected exactly if a negation stands
    directly under a negation, in the place of an operand and at a minus sign. And
    it is the source form of this expression alone. -/
theorem output_of_source_form {e : Expr} (h : ∀ a ∈ e.atoms, a.Fits) :
    (∀ p, parse ("OUTPUT " ++ e.toText) = .ok p → p = ⟨[.output e]⟩) ∧
    ((∃ halt, parse ("OUTPUT " ++ e.toText) = .error halt) ↔ e.hasDoubleNegation = true) ∧
    (∀ halt, parse ("OUTPUT " ++ e.toText) = .error halt → ∃ error, halt = .syntaxError error ∧
      error.production = "operand" ∧ error.found = .sign .sub) ∧
    ∀ e' : Expr, (∀ a ∈ e'.atoms, a.Fits) → e'.toText = e.toText → e' = e := by
  have hlexical : e.Lexical := lexical_of_fits h
  obtain ⟨hok, herror⟩ := hlexical.parse_output
  refine ⟨?_, ⟨?_, ?_⟩, ?_, ?_⟩
  · intro p hp
    cases hd : e.hasDoubleNegation with
    | false => simpa [hok hd] using hp.symm
    | true =>
      obtain ⟨error, hparse, -⟩ := herror hd
      simp [hparse] at hp
  · rintro ⟨halt, hhalt⟩
    cases hd : e.hasDoubleNegation with
    | false => simp [hok hd] at hhalt
    | true => rfl
  · intro hd
    obtain ⟨error, hparse, -⟩ := herror hd
    exact ⟨_, hparse⟩
  · intro halt hhalt
    cases hd : e.hasDoubleNegation with
    | false => simp [hok hd] at hhalt
    | true =>
      obtain ⟨error, hparse, hproduction, -, hfound⟩ := herror hd
      rw [hparse] at hhalt
      exact ⟨error, (Except.error.inj hhalt).symm, hproduction, hfound⟩
  · intro e' h' htext
    exact (lexical_of_fits h').toText_inj hlexical htext

/-- Behind a subtraction, a double negation of a number with a sign is rejected, and
    its text is still told apart from that of a single negation. -/
theorem output_of_subtracted_negations :
    (∀ a ∈ (binary .sub (.variableName "x") (.negate (.negate (.number "-1")))).atoms, a.Fits) ∧
    (∃ halt, parse ("OUTPUT " ++
      (binary .sub (.variableName "x") (.negate (.negate (.number "-1")))).toText) =
        .error halt) ∧
    (binary .sub (.variableName "x") (.negate (.number "-1"))).toText ≠
      (binary .sub (.variableName "x") (.negate (.negate (.number "-1")))).toText := by
  have hfits :
      ∀ a ∈ (binary .sub (.variableName "x") (.negate (.negate (.number "-1")))).atoms, a.Fits := by
    decide
  obtain ⟨-, hrejected, -, hunique⟩ := output_of_source_form hfits
  refine ⟨hfits, hrejected.2 rfl, ?_⟩
  intro htext
  have heq := hunique (.binary .sub (.variableName "x") (.negate (.number "-1"))) (by decide) htext
  cases heq

end Expr

end LogoSyntax

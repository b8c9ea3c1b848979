-- SUMMARY: An error at a component is final: no text behind the component changes it.
import Mathlib
import LogoSyntax.Proofs.Grammar.Independence
import LogoSyntax.Proofs.Token.Place

/-!
# Finality of errors

A token is refused because of the tokens in front of it alone, so every source with
these tokens in front of it is rejected with the same error (`exists_refusal_of_error`).
The tokens up to a word depend on the text up to the word alone, as long as the word
ends there (`exists_text_up_to_token`). Both together say that an error at a component
is final: whatever is written behind the component instead, the error stays the same
(`parse_error_final`).
-/

namespace LogoSyntax

open Parse Grammar Text

/-- A source is rejected because of the tokens up to some token, and so is every source
    that begins with these tokens. -/
theorem exists_refusal_of_error {source : String} {e : SyntaxError}
    (h : parse source = .error (.syntaxError e)) : ∃ us t rest production expected,
      Token.significant (tokenize source) = us ++ t :: rest ∧
      e = .ofToken production expected t ∧
      ∀ source' rest', Token.significant (tokenize source') = us ++ t :: rest' →
        parse source' = .error (.syntaxError e) := by
  obtain ⟨n, us, t, rest, production, expected, hus, hrefuses, rfl⟩ := refuses_of_error h
  refine ⟨us, t, rest, production, expected, hus, rfl, ?_⟩
  intro source' rest' hsource'
  have hrun := hrefuses.runs us t rest' rfl rfl
  rw [← hsource'] at hrun
  exact parse_of_runs hrun

/-- The end of the source is the only token that the grammar sees without a raw text. -/
theorem raw_ne_empty_iff {source : String} {t : Token}
    (ht : t ∈ Token.significant (tokenize source)) : t.raw ≠ "" ↔ t.kind ≠ .noMore := by
  obtain ⟨line, col, hts⟩ := significant_tokenize_eq source
  rw [hts] at ht
  rcases List.mem_append.1 ((upToUnmatched_sublist _).subset ht) with hword | hend
  · exact ⟨fun _ => kind_ne_noMore_of_mem_ofText hword, fun _ => (mem_ofText hword).1⟩
  · obtain rfl := List.mem_singleton.1 hend
    simp [Token.marker]

/-- A token with a raw text stands at a word of its source. Every text that goes on
    behind this word with a blank character, or not at all, has the same tokens up to it. -/
theorem exists_text_up_to_token {source : String} {us rest : List Token} {t : Token}
    (h : Token.significant (tokenize source) = us ++ t :: rest) (hraw : t.raw ≠ "") :
    ∃ before behind : String, source = before ++ t.raw ++ behind ∧
      place (trimLeft before.toList) = (t.line, t.col) ∧
      IsWordBetween before.toList t.raw.toList behind.toList ∧
      ∀ tail : String, (∀ c, tail.toList.head? = some c → isBlank c = true) → ∃ rest',
        Token.significant (tokenize (before ++ t.raw ++ tail)) = us ++ t :: rest' := by
  obtain ⟨before, w, behind, hcs, hw, rfl, rfl, hmatched⟩ := exists_word_of_significant h hraw
  obtain ⟨lead, trail, hsource, hlead, htrail⟩ := exists_eq_append_trim source.toList
  have hstart : trimLeft (lead ++ before) = before := by
    rw [trimLeft_append_of_blank hlead]
    refine trimLeft_eq_self fun c cs hc => ?_
    rw [hc] at hcs
    exact trim_head hcs
  have hword : (Token.behind before w).raw = String.ofList w := by
    simp [Token.behind, Component.text]
  rw [hword]
  refine ⟨String.ofList (lead ++ before), String.ofList (behind ++ trail), ?_, ?_, ?_, ?_⟩
  · refine String.toList_inj.1 ?_
    rw [hsource, hcs]
    simp
  · rw [String.toList_ofList, hstart]
    simp [Token.behind]
  · rw [String.toList_ofList, String.toList_ofList, String.toList_ofList]
    exact hw.widen hlead htrail
  · intro tail htail
    have hcut : IsWordBetween before w (trimRight tail.toList) :=
      ⟨hw.isWord, hw.blank_before, fun c hc => htail c (head?_trimRight hc)⟩
    refine significant_around_word ?_ hcut hmatched
    rw [String.toList_append, String.toList_append, String.toList_ofList, String.toList_ofList,
      trim_around_word hw.isWord, hstart]

/-- An error is at the end of the source, or at a component and final. Cut behind the
    component and continued by nothing, or by a blank character and any text, the source
    is rejected with the same error. -/
theorem parse_error_final (source : String) (e : SyntaxError)
    (h : parse source = .error (.syntaxError e)) :
    (e.raw ≠ "" ↔ e.found ≠ .noMore) ∧
    (e.raw ≠ "" → ∃ before behind : String,
      source = before ++ e.raw ++ behind ∧
      place (trimLeft before.toList) = (e.line, e.col) ∧
      IsWordBetween before.toList e.raw.toList behind.toList ∧
      ∀ tail : String, (∀ c, tail.toList.head? = some c → isBlank c = true) →
        parse (before ++ e.raw ++ tail) = .error (.syntaxError e)) := by
  obtain ⟨us, t, rest, production, expected, hus, rfl, hfinal⟩ := exists_refusal_of_error h
  have ht : t ∈ Token.significant (tokenize source) := by
    rw [hus]
    simp
  refine ⟨raw_ne_empty_iff ht, fun hraw => ?_⟩
  obtain ⟨before, behind, hsource, hplace, hword, htokens⟩ := exists_text_up_to_token hus hraw
  refine ⟨before, behind, hsource, hplace, hword, ?_⟩
  intro tail htail
  obtain ⟨rest', hrest'⟩ := htokens tail htail
  exact hfinal _ rest' hrest'

/-- A bracket behind a parenthesis is refused, although the parenthesis was looked behind
    on before, and nothing behind the bracket changes that. -/
theorem parse_error_final_behind_parenthesis :
    parse "  print\n ( ] x" =
      .error (.syntaxError ⟨"operand", .production "operand", .right .bracket, "]", 2, 4⟩) ∧
    ∃ before behind : String, "  print\n ( ] x" = before ++ "]" ++ behind ∧
      ∀ tail : String, (∀ c, tail.toList.head? = some c → isBlank c = true) →
        parse (before ++ "]" ++ tail) =
          .error (.syntaxError ⟨"operand", .production "operand", .right .bracket, "]", 2, 4⟩) := by
  have herror : parse "  print\n ( ] x" =
      .error (.syntaxError ⟨"operand", .production "operand", .right .bracket, "]", 2, 4⟩) := by
    cbv
  obtain ⟨before, behind, hsource, -, -, hfinal⟩ :=
    (parse_error_final _ _ herror).2 (by decide)
  exact ⟨herror, before, behind, hsource, hfinal⟩

end LogoSyntax

-- SUMMARY: Programs behind one another and between brackets: the text of two programs is parsed to the blocks of both, and a text is a body exactly if it is a program.
import Mathlib
import LogoSyntax.Proofs.Grammar.Independence
import LogoSyntax.Proofs.Grammar.Writing
import LogoSyntax.Proofs.Token.Place

/-!
# Concatenation

The words of a text in front of blank text are found again in front of any text
behind it, and the blocks of a derivation can be put behind those of another one.
Parsing is therefore compatible with putting texts behind one another
(`parse_append`): no block takes words from the next program, although statements
and expressions are as long as they can be.

For the same reason a program can be put between the brackets of a body, and a text
that is a body there is a program on its own (`parse_run_eq_ok_iff`): its own brackets
cannot close the body early, since the body would then not reach up to the last one.
-/

namespace LogoSyntax

open Parse Grammar Text

/-! ## Derivations behind one another -/

/-- The blocks of two derivations, one behind the other, are derived by the tokens of both. -/
theorem DerivesBlocks.append {ts us : List Token} {bs cs : List Block} (h : DerivesBlocks ts bs)
    (h' : DerivesBlocks us cs) : DerivesBlocks (ts ++ us) (bs ++ cs) := by
  induction bs generalizing ts with
  | nil =>
    cases h
    exact h'
  | cons b bs ih =>
    cases h with
    | cons hb h =>
      rw [List.append_assoc]
      exact .cons hb (ih h)

/-! ## Programs of words -/

/-- A parsed program is derived by the tokens of the words of its source. -/
theorem derives_ofText_of_parse {source : String} {p : Program} (h : parse source = .ok p) :
    DerivesProgram (Token.ofText (trim source.toList)) p ∧
      ∀ t ∈ Token.ofText (trim source.toList), t.matched = true := by
  obtain ⟨us, last, hus, hlast, hp⟩ := derives_of_parse h
  obtain ⟨line, col, hts⟩ := significant_tokenize_eq source
  obtain ⟨hmatched, more, hmore⟩ := matched_of_upToUnmatched (hts.symm.trans hus)
  -- The end of the source stands behind the tokens of all words, so nothing is cut off.
  have hnil : more = [] := by
    by_contra hne
    obtain ⟨front, l, rfl⟩ := exists_append_singleton hne
    rw [← List.cons_append, ← List.append_assoc] at hmore
    obtain ⟨htext, -⟩ := List.append_inj' hmore rfl
    have hmem : last ∈ Token.ofText (trim source.toList) := by
      rw [htext]
      simp
    exact kind_ne_noMore_of_mem_ofText hmem hlast
  subst hnil
  obtain ⟨htext, -⟩ := List.append_inj' hmore rfl
  rw [htext]
  exact ⟨hp, hmatched⟩

/-- A source is parsed to a program that is derived by tokens which its words are
    classified as. -/
theorem parse_of_symbols {source : String} {us : List Token} {p : Program}
    (hp : DerivesProgram us p) (hus : ∀ u ∈ us, u.Classified)
    (h : (words source.toList).map classify = us.map fun t => some t.symbol) :
    parse source = .ok p := by
  obtain ⟨ts, last, hts, htext, hlast⟩ :=
    exists_tokens_of_symbols (h.trans List.map_map.symm)
  have hsymbols : (us ++ [Token.ending]).map Token.symbol =
      (Token.significant (tokenize source)).map Token.symbol := by
    rw [hts, List.map_append, List.map_append, htext, List.map_singleton, List.map_singleton, hlast]
    rfl
  have hstream : Stream (us ++ [Token.ending]) := .of_classified hus rfl rfl
  have hlength : 8 * us.length + 4 ≤ 8 * (us ++ [Token.ending]).length + 4 := by
    rw [List.length_append]
    omega
  have hok : Runs (program _) (us ++ [Token.ending]) (.ok p) [Token.ending] := hp.runs rfl hlength
  rcases program_runs_alike Token.symbol id (fun _ => rfl) hstream (Nat.le_refl _) hsymbols with
    ⟨q, T, U, hleft, hright⟩ | ⟨_, _, _, _, _, _, _, hleft, -⟩
  · obtain ⟨hq, -⟩ := hok.unique hleft rfl
    cases hq
    exact parse_of_runs hright
  · cases (hok.unique hleft rfl).1

/-- A source is parsed to a program exactly if its words are classified as tokens that
    derive the program. -/
theorem parse_eq_ok_iff_symbols {source : String} {p : Program} :
    parse source = .ok p ↔ ∃ us, DerivesProgram us p ∧ (∀ u ∈ us, u.Classified) ∧
      (words source.toList).map classify = us.map fun t => some t.symbol := by
  constructor
  · intro h
    obtain ⟨hp, hmatched⟩ := derives_ofText_of_parse h
    refine ⟨_, hp, fun u hu => classified_of_mem_ofText hu (hmatched u hu), ?_⟩
    rw [map_symbol_ofText hmatched, words_trim]
  · rintro ⟨us, hp, hus, hsymbols⟩
    exact parse_of_symbols hp hus hsymbols

/-! ## Texts behind one another -/

/-- Two sources that are parsed, with blank text between them, are parsed to the blocks
    of the first and then those of the second. -/
theorem parse_append (s₁ s₂ blank : String) (p₁ p₂ : Program) (h₁ : parse s₁ = .ok p₁)
    (h₂ : parse s₂ = .ok p₂) (hne : blank ≠ "") (hblank : isBlankText blank.toList = true) :
    parse (s₁ ++ blank ++ s₂) = .ok ⟨p₁.blocks ++ p₂.blocks⟩ := by
  obtain ⟨hp₁, hm₁⟩ := derives_ofText_of_parse h₁
  obtain ⟨hp₂, hm₂⟩ := derives_ofText_of_parse h₂
  have hp : DerivesProgram
      (Token.ofText (trim s₁.toList) ++ Token.ofText (trim s₂.toList))
      ⟨p₁.blocks ++ p₂.blocks⟩ := DerivesBlocks.append hp₁ hp₂
  refine parse_of_symbols hp (fun t ht => ?_) ?_
  · rcases List.mem_append.1 ht with ht | ht
    · exact classified_of_mem_ofText ht (hm₁ t ht)
    · exact classified_of_mem_ofText ht (hm₂ t ht)
  · rw [String.toList_append, String.toList_append,
      words_around_blank (by simpa using hne) hblank, List.map_append, List.map_append,
      map_symbol_ofText hm₁, map_symbol_ofText hm₂, words_trim, words_trim]

/-- A call in parentheses is no item of the call in front of it. -/
theorem parse_append_parenthesized_call :
    parse "print :a" = .ok ⟨[.call ⟨"print", [.variableName "a"], false⟩]⟩ ∧
    parse "( fd 2 )" = .ok ⟨[.call ⟨"fd", [.number "2"], true⟩]⟩ ∧
    parse ("print :a" ++ "\n" ++ "( fd 2 )") =
      .ok ⟨[.call ⟨"print", [.variableName "a"], false⟩, .call ⟨"fd", [.number "2"], true⟩]⟩ := by
  have hprint : parse "print :a" = .ok ⟨[.call ⟨"print", [.variableName "a"], false⟩]⟩ := by cbv
  have hfd : parse "( fd 2 )" = .ok ⟨[.call ⟨"fd", [.number "2"], true⟩]⟩ := by
    set_option maxRecDepth 2000 in
    cbv
  exact ⟨hprint, hfd, parse_append _ _ _ _ _ hprint hfd (by decide) (by decide)⟩

/-! ## Texts between brackets -/

/-- The tokens of a `RUN` block are those of the blocks of its body, with three around them. -/
theorem derives_run_iff {us : List Token} {blocks : List Block} :
    DerivesProgram us ⟨[.run blocks]⟩ ↔ ∃ run opening ts closing,
      us = run :: opening :: (ts ++ [closing]) ∧ run.kind = .keyword .run ∧
      opening.kind = .left .bracket ∧ DerivesBlocks ts blocks ∧ closing.kind = .right .bracket := by
  constructor
  · intro h
    -- The only block takes all the tokens, so the bracket that closes its body is the last one.
    cases h with
    | cons hblock hnil =>
      cases hnil
      cases hblock with
      | control hrun hcontrol =>
        cases hcontrol with
        | run hbody =>
          cases hbody with
          | mk ho h hc => exact ⟨_, _, _, _, List.append_nil _, hrun, ho, h, hc⟩
  · rintro ⟨run, opening, ts, closing, rfl, hrun, ho, h, hc⟩
    have hblock : DerivesBlock (run :: opening :: (ts ++ [closing])) (.run blocks) :=
      .control hrun (.run (.mk ho h hc))
    have hblocks : DerivesBlocks (run :: opening :: (ts ++ [closing]) ++ []) [.run blocks] :=
      .cons hblock .nil
    rwa [List.append_nil] at hblocks

/-- A text between brackets behind `RUN` has these three words around its own. -/
theorem classify_words_run (s : String) :
    (words ("RUN [ " ++ s ++ " ]").toList).map classify =
      some (.keyword .run, none) :: some (.left .bracket, none) ::
        ((words s.toList).map classify ++ [some (.right .bracket, none)]) := by
  have hfront : words "RUN [ ".toList =
      [Keyword.run.spelling.toList, [Delimiter.bracket.opening]] := by cbv
  have hback : words " ]".toList = [[Delimiter.bracket.closing]] := by cbv
  have hlast : ∀ c, "RUN [ ".toList.getLast? = some c → isBlank c = true := by simp [isBlank]
  have hfirst : ∀ c, " ]".toList.head? = some c → isBlank c = true := by simp [isBlank]
  rw [String.toList_append, String.toList_append, words_append (.inr hfirst),
    words_append (.inl hlast), hfront, hback, List.map_append, List.map_append, List.map_cons,
    List.map_singleton, List.map_singleton, classify_keyword, classify_opening, classify_closing]
  rfl

/-- Between the brackets of a body, a text is parsed to some blocks exactly if it is
    parsed to them as a program. -/
theorem parse_run_eq_ok_iff (s : String) (blocks : List Block) :
    parse ("RUN [ " ++ s ++ " ]") = .ok ⟨[.run blocks]⟩ ↔ parse s = .ok ⟨blocks⟩ := by
  rw [parse_eq_ok_iff_symbols, parse_eq_ok_iff_symbols, classify_words_run]
  constructor
  · rintro ⟨us, hp, hus, hsymbols⟩
    obtain ⟨run, opening, ts, closing, rfl, -, -, h, -⟩ := derives_run_iff.1 hp
    refine ⟨ts, h, fun t ht => hus t (by simp [ht]), ?_⟩
    rw [List.map_cons, List.map_cons, List.map_append] at hsymbols
    obtain ⟨-, htail⟩ := List.cons.inj hsymbols
    obtain ⟨-, htail⟩ := List.cons.inj htail
    exact (List.append_inj' htail rfl).1
  · rintro ⟨ts, h, hts, hsymbols⟩
    let mark (kind : TokenKind) : Token := .marker kind true 1 1
    refine ⟨mark (.keyword .run) :: mark (.left .bracket) :: (ts ++ [mark (.right .bracket)]),
      derives_run_iff.2 ⟨_, _, ts, _, rfl, rfl, rfl, h, rfl⟩, ?_, ?_⟩
    · simp only [List.forall_mem_cons, List.forall_mem_append]
      exact ⟨⟨rfl, rfl, rfl⟩, ⟨rfl, rfl, rfl⟩, hts, ⟨rfl, rfl, rfl⟩, by simp⟩
    · rw [hsymbols, List.map_cons, List.map_cons, List.map_append]
      rfl

end LogoSyntax

-- SUMMARY: Programs: parsing a source finds exactly the derivations of its tokens, or the first token that rules them out.
import LogoSyntax.Proofs.Grammar.Block
import LogoSyntax.Proofs.Grammar.Fuel

/-!
# Programs

A source is parsed exactly if its tokens derive a program, and then the program
is the only one that they derive. Otherwise the syntax error is at the first
token that the ones before it cannot be followed by in any program.

The grammar is local: what is parsed or refused depends on the tokens up to that
point alone. That makes an error at a token final, whatever may follow the token.
-/

namespace LogoSyntax

open Parse Grammar

/-! ## Whole programs -/

/-- The tokens without the ends of lines and the end of the source. -/
def Token.sentence (ts : List Token) : List Token :=
  ts.filter fun t => t.kind ≠ .endOfLine ∧ t.kind ≠ .noMore

/-- Some matched tokens continue these to a program. -/
def Viable (ts : List Token) : Prop :=
  ∃ more p, (∀ t ∈ more, t.matched = true) ∧ DerivesProgram (ts ++ more) p

theorem Viable.of_append {ts us : List Token} (hus : ∀ u ∈ us, u.matched = true)
    (h : Viable (ts ++ us)) : Viable ts := by
  obtain ⟨more, p, hmore, hp⟩ := h
  refine ⟨us ++ more, p, fun t ht => ?_, by rwa [← List.append_assoc]⟩
  exact (List.mem_append.1 ht).elim (hus t) (hmore t)

theorem DerivesProgram.runs {ts : List Token} {last : Token} {p : Program} {n : Nat}
    (h : DerivesProgram ts p) (hlast : last.kind = .noMore) (hn : 8 * ts.length + 4 ≤ n) :
    Runs (program n) (ts ++ [last]) (.ok p) [last] := by
  rw [program]
  exact .bind (DerivesBlocks.runs_blocksUntilEnd h hlast hn) (.bind (.record _) (.pure p))

/-- The end of the source, as a token. -/
def Token.ending : Token :=
  .marker .noMore false 1 1

/-- A list of tokens derives at most one program. -/
theorem DerivesProgram.unique {ts : List Token} {p q : Program} (hp : DerivesProgram ts p)
    (hq : DerivesProgram ts q) : p = q := by
  have hrp : Runs (program (8 * ts.length + 4)) (ts ++ [.ending]) (.ok p) [.ending] :=
    hp.runs rfl (Nat.le_refl _)
  have hrq : Runs (program (8 * ts.length + 4)) (ts ++ [.ending]) (.ok q) [.ending] :=
    hq.runs rfl (Nat.le_refl _)
  exact Except.ok.inj (hrp.unique hrq rfl).1

/-- Parsing blocks up to the end stops nowhere else. -/
theorem blocksUntilEnd_stops {n : Nat} {r r' : Reader} {blocks : List Block}
    (h : blocksUntilEnd n r = .ok blocks r') : nextKind r'.pending = some .noMore := by
  induction n generalizing r blocks with
  | zero => cases h
  | succ n ih =>
    rw [blocksUntilEnd] at h
    obtain ⟨b, s, hs, h⟩ := bind_eq_ok.1 h
    obtain ⟨t, _, hpeek, hb⟩ := bind_eq_ok.1 hs
    change EStateM.Result.ok ((r.fill 0).ahead 0) (r.fill 0) = _ at hpeek
    cases hpeek
    cases hb
    split at h
    · next ht =>
      cases h
      have hahead := Reader.ahead_fill r 0
      rw [Nat.zero_min] at hahead
      simpa [nextKind, List.head?_eq_getElem?, hahead] using ht
    · obtain ⟨first, s', -, h⟩ := bind_eq_ok.1 h
      obtain ⟨rest, s'', hrest, h⟩ := bind_eq_ok.1 h
      cases h
      exact ih hrest

/-- Every stream is read up to its end, as a program, or refused at one of its tokens. -/
theorem program_outcome {r : Reader} {n : Nat} (h : Stream r.pending)
    (hn : 8 * r.pending.length + 4 ≤ n) :
    (∃ us last p, r.pending = us ++ [last] ∧ last.kind = .noMore ∧ DerivesProgram us p) ∨
      ∃ us t rest production expected, r.pending = us ++ t :: rest ∧
        Refuses noKind (program n) DerivesProgram us t production expected := by
  cases blocksUntilEnd_meets h hn with
  | @accepts us rest blocks hts hrest ha =>
    obtain ⟨r', hr', hp⟩ := ha.runs us rest rfl ⟨rfl, rfl⟩ r hts
    have hnext := blocksUntilEnd_stops hr'
    rw [hp] at hnext
    obtain ⟨t, rest, rfl⟩ := List.exists_cons_of_ne_nil hrest
    have ht : t.kind = .noMore := by simpa using hnext
    obtain ⟨-, hstream⟩ := (hts ▸ h).split hrest
    obtain rfl := hstream.eq_nil (by rw [ht]; rfl)
    exact .inl ⟨us, t, ⟨blocks⟩, hts, ht, ha.derives⟩
  | @refuses us rest t production expected hts hr =>
    refine .inr ⟨us, t, rest, production, expected, hts, fun us' u rest' hus hu => ?_, fun _ => rfl,
      hr.explains.imp [] fun s hc => ?_⟩
    · rw [program]
      exact .bind_error (hr.runs us' u rest' hus hu)
    · obtain ⟨more, blocks, hmore, hb⟩ := hc
      exact ⟨more, ⟨blocks⟩, hmore, hb⟩

/-- A refused token cannot follow the tokens before it in any program. -/
theorem Refuses.not_viable {ts : List Token} {t : Token} {production : String}
    {expected : Expected} {n : Nat}
    (h : Refuses noKind (program n) DerivesProgram ts t production expected) :
    ¬ Viable (ts ++ [t]) := by
  rintro ⟨more, p, -, hp⟩
  -- With fuel for all the tokens of the program, the same run would have two outcomes.
  obtain ⟨fuel, hle, hfuel⟩ : ∃ fuel, n ≤ fuel ∧ 8 * (ts ++ [t] ++ more).length + 4 ≤ fuel :=
    ⟨_, Nat.le_add_right _ _, Nat.le_add_left _ _⟩
  have hok : Runs (program fuel) (ts ++ [t] ++ more ++ [.ending]) (.ok p) [.ending] :=
    hp.runs rfl hfuel
  have herror := (program_extends hle).runs (h.runs ts t (more ++ [.ending]) rfl rfl)
  have hts : ts ++ t :: (more ++ [.ending]) = ts ++ [t] ++ more ++ [.ending] := by simp
  rw [hts] at herror
  cases (hok.unique herror rfl).1

/-! ## Sources -/

theorem Reader.parse_of_runs {r : Reader} {o : Except SyntaxError Program} {T : List Token}
    (h : Runs (program r.fuel) r.pending o T) : r.parse.1 = o.mapError Halt.syntaxError := by
  obtain ⟨r', hr', -⟩ := h r rfl
  rw [Reader.parse, hr']
  cases o <;> rfl

theorem Reader.fuel_ofCursor (c : Cursor) :
    8 * (Token.significant c.tokens).length + 4 ≤ (ofCursor c).fuel := by
  have hle : (Token.significant c.tokens).length ≤ c.tokens.length := List.length_filter_le _ _
  have hsize := c.length_tokens_le
  simp only [fuel, ofCursor, List.length_nil]
  omega

theorem stream_tokenize (source : String) : Stream (Token.significant (tokenize source)) :=
  (Cursor.ofSource source).stream_significant

/-- A source is parsed as its significant tokens are, with fuel enough for them. -/
theorem exists_fuel (source : String) :
    ∃ n, 8 * (Token.significant (tokenize source)).length + 4 ≤ n ∧
      ∀ o T, Runs (program n) (Token.significant (tokenize source)) o T →
        parse source = o.mapError Halt.syntaxError :=
  ⟨_, Reader.fuel_ofCursor _, fun _ _ => Reader.parse_of_runs⟩

theorem parse_of_derives {source : String} {us : List Token} {last : Token} {p : Program}
    (hts : Token.significant (tokenize source) = us ++ [last]) (hlast : last.kind = .noMore)
    (hp : DerivesProgram us p) : parse source = .ok p := by
  obtain ⟨n, hn, hparse⟩ := exists_fuel source
  rw [hts] at hn hparse
  rw [List.length_append] at hn
  exact hparse (.ok p) _ (hp.runs hlast (by omega))

/-- A source is parsed up to its end, or the parser refuses one of its tokens. -/
theorem parse_or_refuses (source : String) :
    (∃ us last p, Token.significant (tokenize source) = us ++ [last] ∧ last.kind = .noMore ∧
      DerivesProgram us p ∧ parse source = .ok p) ∨
    ∃ n us t rest production expected, Token.significant (tokenize source) = us ++ t :: rest ∧
      Refuses noKind (program n) DerivesProgram us t production expected ∧
      parse source = .error (.syntaxError (.ofToken production expected t)) := by
  obtain ⟨n, hn, hparse⟩ := exists_fuel source
  have hstream := stream_tokenize source
  have hr := Reader.pending_ofSource source
  rw [← hr] at hstream hn hparse
  rcases program_outcome hstream hn with
    ⟨us, last, p, hus, hlast, hp⟩ | ⟨us, t, rest, production, expected, hus, hrefuses⟩
  · rw [hr] at hus
    exact .inl ⟨us, last, p, hus, hlast, hp, parse_of_derives hus hlast hp⟩
  · rw [hus] at hparse
    have herror := hparse _ _ (hrefuses.runs us t rest rfl rfl)
    exact .inr ⟨n, us, t, rest, production, expected, hr ▸ hus, hrefuses, herror⟩

/-- A source is parsed up to its end, or up to the first of its tokens that the
    ones before it cannot be followed by. -/
theorem parse_outcome (source : String) :
    (∃ us last p, Token.significant (tokenize source) = us ++ [last] ∧ last.kind = .noMore ∧
      DerivesProgram us p ∧ parse source = .ok p) ∨
    ∃ us t rest production expected, Token.significant (tokenize source) = us ++ t :: rest ∧
      Viable us ∧ ¬ Viable (us ++ [t]) ∧
      parse source = .error (.syntaxError (.ofToken production expected t)) := by
  rcases parse_or_refuses source with h |
    ⟨n, us, t, rest, production, expected, hus, hrefuses, herror⟩
  · exact .inl h
  · exact .inr ⟨us, t, rest, production, expected, hus, hrefuses.explains.completable,
      hrefuses.not_viable, herror⟩

/-- An error is at a token that the parser refuses. -/
theorem refuses_of_error {source : String} {e : SyntaxError}
    (h : parse source = .error (.syntaxError e)) :
    ∃ n us t rest production expected, Token.significant (tokenize source) = us ++ t :: rest ∧
      Refuses noKind (program n) DerivesProgram us t production expected ∧
      e = .ofToken production expected t := by
  rcases parse_or_refuses source with ⟨_, _, p, _, _, _, hok⟩ |
    ⟨n, us, t, rest, production, expected, hus, hrefuses, herror⟩
  · simp [hok] at h
  · refine ⟨n, us, t, rest, production, expected, hus, hrefuses, ?_⟩
    simpa [h] using herror

/-- A parsed program is derived by the tokens in front of the end of the source. -/
theorem derives_of_parse {source : String} {p : Program} (h : parse source = .ok p) :
    ∃ us last, Token.significant (tokenize source) = us ++ [last] ∧ last.kind = .noMore ∧
      DerivesProgram us p := by
  rcases parse_outcome source with ⟨us, last, q, hus, hlast, hq, hok⟩ |
    ⟨_, _, _, _, _, _, _, _, herror⟩
  · obtain rfl : q = p := by simpa [hok] using h
    exact ⟨us, last, hus, hlast, hq⟩
  · simp [herror] at h

/-- The tokens of a source: those in front of the last one are matched, and the
    last one marks the end of the source or the first component that no shape fits. -/
theorem tokenize_spec (source : String) :
    ∃ last, tokenize source = (Cursor.ofSource source).matchedTokens ++ [last] ∧
      last.matched = false ∧
      ((last.kind = .noMore ∧ ∀ line ∈ sourceLines source, ∀ w ∈ line.components,
          (classify w.chars).isSome = true) ∨
        (last.kind = .notFound ∧ ∃ line ∈ sourceLines source, ∃ w ∈ line.components,
          classify w.chars = none)) := by
  obtain ⟨last, hts, hm, hkind⟩ := (Cursor.ofSource source).tokens_spec
  refine ⟨last, hts, hm, ?_⟩
  rw [Cursor.components_ofSource] at hkind
  rcases hkind with ⟨hk, hall⟩ | ⟨hk, w, hw, hnone⟩
  · exact .inl ⟨hk, fun line hline w hw => hall w (List.mem_flatMap.2 ⟨line, hline, hw⟩)⟩
  · obtain ⟨line, hline, hw⟩ := List.mem_flatMap.1 hw
    exact .inr ⟨hk, line, hline, w, hw, hnone⟩

/-- What the grammar sees of a source: classified tokens and the mark of its end. -/
theorem significant_tokenize {source : String} {last : Token}
    (hts : tokenize source = (Cursor.ofSource source).matchedTokens ++ [last])
    (hlast : last.kind.isEnd = true) :
    Token.significant (tokenize source) =
        Token.significant (Cursor.ofSource source).matchedTokens ++ [last] ∧
      ∀ t ∈ Token.significant (Cursor.ofSource source).matchedTokens, t.Classified := by
  have hsig : Token.significant (tokenize source) =
      Token.significant (Cursor.ofSource source).matchedTokens ++ [last] := by
    have hne := TokenKind.ne_endOfLine_of_isEnd hlast
    rw [hts]
    simp [Token.significant, hne]
  have hstream := stream_tokenize source
  rw [hsig] at hstream
  exact ⟨hsig, (hstream.split (by simp)).1⟩

theorem sentence_tokenize {source : String} {last : Token}
    (hts : tokenize source = (Cursor.ofSource source).matchedTokens ++ [last])
    (hlast : last.kind = .noMore) :
    Token.sentence (tokenize source) =
      Token.significant (Cursor.ofSource source).matchedTokens := by
  obtain ⟨-, hcl⟩ := significant_tokenize hts (by rw [hlast]; rfl)
  have hnil : [last].filter (fun t => t.kind ≠ .endOfLine ∧ t.kind ≠ .noMore) = [] := by
    simp [hlast]
  rw [hts, Token.sentence, List.filter_append, hnil, List.append_nil, Token.significant]
  refine List.filter_congr fun t ht => ?_
  by_cases hk : t.kind = .endOfLine
  · simp [hk]
  · have hc := hcl t (List.mem_filter.2 ⟨ht, by simpa using hk⟩)
    have hne : t.kind ≠ .noMore := fun h => by simpa [h, TokenKind.isMarker] using hc.isMarker
    simp [hk, hne]

/-- A source is parsed to a program exactly if its tokens end with the end of
    the source and derive the program, and no tokens derive two programs. -/
theorem parse_eq_ok_iff_derives :
    (∀ (source : String) (p : Program), parse source = .ok p ↔
      (tokenize source).getLast?.map Token.kind = some .noMore ∧
        DerivesProgram (Token.sentence (tokenize source)) p) ∧
    ∀ (ts : List Token) (p q : Program), DerivesProgram ts p → DerivesProgram ts q → p = q := by
  refine ⟨fun source p => ?_, fun ts p q hp hq => hp.unique hq⟩
  obtain ⟨last, hts, -, hlast⟩ := tokenize_spec source
  constructor
  · intro hparse
    rcases parse_outcome source with ⟨us, last', q, hus, hlast', hq, hok⟩ |
      ⟨_, _, _, _, _, _, _, _, herror⟩
    · have hend : last.kind.isEnd = true := by
        rcases hlast with ⟨hk, -⟩ | ⟨hk, -⟩ <;> rw [hk] <;> rfl
      rw [(significant_tokenize hts hend).1] at hus
      obtain ⟨rfl, hlasts⟩ := List.append_inj' hus rfl
      obtain rfl : last = last' := List.singleton_inj.1 hlasts
      obtain rfl : p = q := by simpa [hok] using hparse.symm
      exact ⟨by simp [hts, hlast'], by rwa [sentence_tokenize hts hlast']⟩
    · simp [herror] at hparse
  · rintro ⟨hmore, hp⟩
    have hk : last.kind = .noMore := by simpa [hts] using hmore
    rw [sentence_tokenize hts hk] at hp
    exact parse_of_derives (significant_tokenize hts (by rw [hk]; rfl)).1 hk hp

theorem significant_eq_append_cons {ts us rest : List Token} {t : Token}
    (h : Token.significant ts = us ++ t :: rest) :
    ∃ before after, ts = before ++ t :: after ∧ Token.significant before = us ∧
      t.kind ≠ .endOfLine := by
  obtain ⟨before, behind, rfl, hbefore, hbehind⟩ := List.filter_eq_append_iff.1 h
  obtain ⟨skipped, after, rfl, hskipped, ht, -⟩ := List.filter_eq_cons_iff.1 hbehind
  refine ⟨before ++ skipped, after, by simp, ?_, by simpa using ht⟩
  have hnil : Token.significant skipped = [] := by
    rw [Token.significant, List.filter_eq_nil_iff]
    simpa using hskipped
  rw [Token.significant_append, hnil, List.append_nil]
  exact hbefore

/-- The token that an error is at is the last one, or the matched tokens cannot
    all be the beginning of a program. -/
theorem eq_last_or_not_viable {ts us rest : List Token} {t last : Token}
    (hts : ts ++ [last] = us ++ t :: rest) (hcl : ∀ s ∈ ts, s.Classified)
    (hnot : ¬ Viable (us ++ [t])) :
    (t = last ∧ us = ts) ∨ (t.Classified ∧ ¬ Viable ts) := by
  rcases List.eq_nil_or_concat rest with rfl | ⟨rest, l, rfl⟩
  · obtain ⟨rfl, hlast⟩ := List.append_inj' hts rfl
    exact .inl ⟨(List.singleton_inj.1 hlast).symm, rfl⟩
  · have hsplit : ts ++ [last] = (us ++ [t] ++ rest) ++ [l] := by simpa using hts
    obtain ⟨rfl, -⟩ := List.append_inj' hsplit rfl
    refine .inr ⟨hcl t (by simp), fun hviable => hnot (hviable.of_append fun s hs => ?_)⟩
    exact (hcl s (by simp [hs])).matched

/-- The token that an error is at, beside the last token of the source. -/
theorem error_cases {source : String} {us rest : List Token} {t : Token}
    (hus : Token.significant (tokenize source) = us ++ t :: rest) (hnot : ¬ Viable (us ++ [t])) :
    ∃ last, tokenize source = (Cursor.ofSource source).matchedTokens ++ [last] ∧
      ((last.kind = .noMore ∧ ∀ line ∈ sourceLines source, ∀ w ∈ line.components,
          (classify w.chars).isSome = true) ∨
        (last.kind = .notFound ∧ ∃ line ∈ sourceLines source, ∃ w ∈ line.components,
          classify w.chars = none)) ∧
      ((t = last ∧ us = Token.significant (Cursor.ofSource source).matchedTokens) ∨
        (t.Classified ∧ ¬ Viable (Token.significant (Cursor.ofSource source).matchedTokens))) := by
  obtain ⟨last, hts, -, hlast⟩ := tokenize_spec source
  have hend : last.kind.isEnd = true := by
    rcases hlast with ⟨hk, -⟩ | ⟨hk, -⟩ <;> rw [hk] <;> rfl
  obtain ⟨hsig, hcl⟩ := significant_tokenize hts hend
  exact ⟨last, hts, hlast, eq_last_or_not_viable (hsig.symm.trans hus) hcl hnot⟩

/-- An error is at the end of the source exactly if the source is merely incomplete. -/
theorem kind_eq_noMore_iff {source : String} {us rest : List Token} {t : Token} {h : Halt}
    (hus : Token.significant (tokenize source) = us ++ t :: rest) (hviable : Viable us)
    (hnot : ¬ Viable (us ++ [t])) (herror : parse source = .error h) :
    t.kind = .noMore ↔
      (∀ line ∈ sourceLines source, ∀ w ∈ line.components, (classify w.chars).isSome = true) ∧
        Viable (Token.sentence (tokenize source)) ∧
        ¬ ∃ p, DerivesProgram (Token.sentence (tokenize source)) p := by
  obtain ⟨last, hts, hlast, hcases⟩ := error_cases hus hnot
  constructor
  · intro hk
    rcases hcases with ⟨rfl, rfl⟩ | ⟨hcl, -⟩
    · rcases hlast with ⟨-, hall⟩ | ⟨hfound, -⟩
      · rw [sentence_tokenize hts hk]
        refine ⟨hall, hviable, ?_⟩
        rintro ⟨p, hp⟩
        have hok := parse_of_derives (significant_tokenize hts (by rw [hk]; rfl)).1 hk hp
        simp [hok] at herror
      · simp [hk] at hfound
    · simpa [hk, TokenKind.isMarker] using hcl.isMarker
  · rintro ⟨hall, hwhole, -⟩
    rcases hlast with ⟨hk, -⟩ | ⟨-, line, hline, w, hw, hnone⟩
    · rw [sentence_tokenize hts hk] at hwhole
      rcases hcases with ⟨rfl, -⟩ | ⟨-, hno⟩
      · exact hk
      · exact absurd hwhole hno
    · simpa [hnone] using hall line hline w hw

/-- An error is lexical exactly if only a component that no shape fits is wrong. -/
theorem kind_eq_notFound_iff {source : String} {us rest : List Token} {t : Token}
    (hus : Token.significant (tokenize source) = us ++ t :: rest) (hviable : Viable us)
    (hnot : ¬ Viable (us ++ [t])) :
    t.kind = .notFound ↔
      (∃ line ∈ sourceLines source, ∃ w ∈ line.components, classify w.chars = none) ∧
        Viable (Token.significant (Cursor.ofSource source).matchedTokens) := by
  obtain ⟨last, hts, hlast, hcases⟩ := error_cases hus hnot
  constructor
  · intro hk
    rcases hcases with ⟨rfl, rfl⟩ | ⟨hcl, -⟩
    · rcases hlast with ⟨hmore, -⟩ | ⟨-, hsome⟩
      · simp [hk] at hmore
      · exact ⟨hsome, hviable⟩
    · simpa [hk, TokenKind.isMarker] using hcl.isMarker
  · rintro ⟨⟨line, hline, w, hw, hnone⟩, hprefix⟩
    rcases hlast with ⟨-, hall⟩ | ⟨hk, -⟩
    · simpa [hnone] using hall line hline w hw
    · rcases hcases with ⟨rfl, -⟩ | ⟨-, hno⟩
      · exact hk
      · exact absurd hprefix hno

/-- Every source is parsed, or its syntax error is at one of its tokens: the
    significant tokens before it can be continued to a program, but not with it.
    The error is thus at the end of the source if its tokens are the beginning of
    a program and no program themselves, and it is lexical if the tokens in front
    of a component that no shape fits are the beginning of a program. -/
theorem parse_ok_or_error_at_first_unviable (source : String) :
    (∃ p, parse source = .ok p) ∨
    ∃ e, parse source = .error (.syntaxError e) ∧
      (∃ before t after, tokenize source = before ++ t :: after ∧ t.kind ≠ .endOfLine ∧
        (e.found = t.kind ∧ e.raw = t.raw ∧ e.line = t.line ∧ e.col = t.col) ∧
        Viable (Token.significant before) ∧
        (t.matched = true → ¬ Viable (Token.significant before ++ [t]))) ∧
      (e.found = .noMore ↔
        (∀ line ∈ sourceLines source, ∀ w ∈ line.components, (classify w.chars).isSome = true) ∧
          Viable (Token.sentence (tokenize source)) ∧
          ¬ ∃ p, DerivesProgram (Token.sentence (tokenize source)) p) ∧
      (e.found = .notFound ↔
        (∃ line ∈ sourceLines source, ∃ w ∈ line.components, classify w.chars = none) ∧
          Viable (Token.significant (Cursor.ofSource source).matchedTokens)) ∧
      (e.isLexical = true ↔ e.found = .notFound) := by
  rcases parse_outcome source with ⟨_, _, p, _, _, _, hok⟩ |
    ⟨us, t, rest, production, expected, hus, hviable, hnot, herror⟩
  · exact .inl ⟨p, hok⟩
  obtain ⟨before, after, hts, hbefore, hk⟩ := significant_eq_append_cons hus
  refine .inr ⟨_, herror, ⟨before, t, after, hts, hk, ⟨rfl, rfl, rfl, rfl⟩, ?_, ?_⟩,
    kind_eq_noMore_iff hus hviable hnot herror, kind_eq_notFound_iff hus hviable hnot,
    by simp [SyntaxError.isLexical]⟩
  · rwa [hbefore]
  · intro _
    rwa [hbefore]

end LogoSyntax

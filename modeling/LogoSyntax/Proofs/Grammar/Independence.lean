-- SUMMARY: Layout and quoting: sources whose significant tokens agree are parsed alike.
import LogoSyntax.Proofs.Grammar.Program
import LogoSyntax.Proofs.Token.Rejoin

/-!
# Layout and quoting

A source is parsed by the kinds and values of its significant tokens. Where its
lines end, how much blank text stands between two words and which quote is in
front of a word decides nothing: two sources whose significant tokens agree are
parsed to the same program, or rejected at tokens in the same place of the two
lists (`parse_layout_and_quoting`).

The promises of the parsing actions speak of every stream with the same symbols,
so one run of the parser tells what it does on both sources. What is left is to
compare runs with different fuel (`parse_of_runs`).
-/

namespace LogoSyntax

open Parse Grammar Text

/-! ## Results that agree -/

namespace SyntaxError

/-- The same was expected in the same production, and a token of the same kind was found. -/
def SameFault (e e' : SyntaxError) : Prop :=
  e.production = e'.production ∧ e.expected = e'.expected ∧ e.found = e'.found

/-- The errors differ in their places at most. -/
def SameButPlace (e e' : SyntaxError) : Prop :=
  e' = { e with line := e'.line, col := e'.col }

end SyntaxError

/-- Both results are the same program, or both are syntax errors that agree. -/
inductive SameResult (agree : SyntaxError → SyntaxError → Prop) :
    Except Halt Program → Except Halt Program → Prop where
  | parsed (p : Program) : SameResult agree (.ok p) (.ok p)
  | rejected {e e' : SyntaxError} (h : agree e e') :
      SameResult agree (.error (.syntaxError e)) (.error (.syntaxError e'))

/-! ## Two runs -/

section TwoRuns

variable {α : Type} (view : Token → α) (shown : α → TokenKind × Option String)

theorem map_symbol_of_view (hview : ∀ t, shown (view t) = t.symbol) {ts us : List Token}
    (h : ts.map view = us.map view) : ts.map Token.symbol = us.map Token.symbol := by
  have hmap (as : List Token) : as.map Token.symbol = (as.map view).map shown := by
    rw [List.map_map]
    exact List.map_congr_left fun t _ => (hview t).symm
  rw [hmap, hmap, h]

/-- Two token lists that agree in a view which shows the symbols are parsed to the
    same program, or rejected at tokens that agree in that view. -/
theorem program_runs_alike (hview : ∀ t, shown (view t) = t.symbol)
    {ts us : List Token} {n : Nat} (h : Stream ts) (hn : 8 * ts.length + 4 ≤ n)
    (hts : ts.map view = us.map view) :
    (∃ p T U, Runs (program n) ts (.ok p) T ∧ Runs (program n) us (.ok p) U) ∨
      ∃ production expected t u T U, view t = view u ∧
        Runs (program n) ts (.error (.ofToken production expected t)) T ∧
        Runs (program n) us (.error (.ofToken production expected u)) U := by
  cases blocksUntilEnd_meets h hn with
  | @accepts front rest blocks hfront _ ha =>
    subst hfront
    rw [List.map_append] at hts
    obtain ⟨front', rest', rfl, hf, hr⟩ := List.map_eq_append_iff.1 hts.symm
    have hnil : Sight.far.Agree [] [] := ⟨rfl, rfl⟩
    have hagree : Sight.far.Agree rest rest' := by
      simpa using hnil.append (map_symbol_of_view view shown hview hr.symm)
    have hleft := ha.runs front rest rfl ⟨rfl, rfl⟩
    have hright := ha.runs front' rest' (map_symbol_of_view view shown hview hf) hagree
    refine .inl ⟨⟨blocks⟩, rest, rest', ?_, ?_⟩
    · exact .bind hleft (.bind (.record _) (.pure _))
    · exact .bind hright (.bind (.record _) (.pure _))
  | @refuses front rest t production expected hfront hr =>
    subst hfront
    rw [List.map_append, List.map_cons] at hts
    obtain ⟨front', _, rfl, hf, htail⟩ := List.map_eq_append_iff.1 hts.symm
    obtain ⟨u, rest', rfl, hu, -⟩ := List.map_eq_cons_iff.1 htail
    have hleft := hr.runs front t rest rfl rfl
    have hsymbol : u.symbol = t.symbol := by rw [← hview, ← hview, hu]
    have hright := hr.runs front' u rest' (map_symbol_of_view view shown hview hf) hsymbol
    exact .inr ⟨production, expected, t, u, _, _, hu.symm, .bind_error hleft, .bind_error hright⟩

/-- What the parser does on the tokens of a source within any fuel is what the
    source is parsed to. -/
theorem parse_of_runs {source : String} {n : Nat} {o : Except SyntaxError Program}
    {T : List Token} (h : Runs (program n) (Token.significant (tokenize source)) o T) :
    parse source = o.mapError Halt.syntaxError := by
  obtain ⟨m, hm, hparse⟩ := exists_fuel source
  obtain ⟨o', T', h'⟩ : ∃ o' T', Runs (program m) (Token.significant (tokenize source)) o' T' := by
    rcases program_runs_alike Token.symbol id (fun _ => rfl)
      (stream_tokenize source) hm rfl with ⟨p, T, _, hp, -⟩ | ⟨_, _, _, _, T, _, -, he, -⟩
    · exact ⟨_, T, hp⟩
    · exact ⟨_, T, he⟩
  rw [hparse o' T' h']
  -- With the greater of both amounts of fuel there is one outcome only.
  have hn := (program_extends (Nat.le_max_left n m)).runs h
  have hm := (program_extends (Nat.le_max_right n m)).runs h'
  obtain ⟨last, hts, hlast, hkind⟩ := tokenize_spec source
  have hend : last.kind.isEnd = true := by
    rcases hkind with ⟨hk, -⟩ | ⟨hk, -⟩ <;> rw [hk] <;> rfl
  rw [(significant_tokenize hts hend).1] at hn hm
  rw [(hn.unique hm hlast).1]

/-- Sources that agree in a view of their significant tokens are parsed alike. -/
theorem sameResult_of_view (hview : ∀ t, shown (view t) = t.symbol)
    {agree : SyntaxError → SyntaxError → Prop}
    (hagree : ∀ production expected t u, view t = view u →
      agree (.ofToken production expected t) (.ofToken production expected u))
    {source source' : String}
    (h : (Token.significant (tokenize source)).map view =
      (Token.significant (tokenize source')).map view) :
    SameResult agree (parse source) (parse source') := by
  obtain ⟨n, hn, -⟩ := exists_fuel source
  rcases program_runs_alike view shown hview (stream_tokenize source) hn h with
    ⟨p, T, U, hleft, hright⟩ | ⟨production, expected, t, u, T, U, htu, hleft, hright⟩
  · rw [parse_of_runs hleft, parse_of_runs hright]
    exact .parsed p
  · rw [parse_of_runs hleft, parse_of_runs hright]
    exact .rejected (hagree production expected t u htu)

end TwoRuns

/-! ## Sources on one line -/

/-- The raw texts of some tokens, with one space between two of them. -/
def Token.spaced (ts : List Token) : String :=
  " ".intercalate ((ts.map Token.raw).filter (· ≠ ""))

/-- The words that some contents come from. -/
def contentWords (contents : List (TokenKind × String × Option String × Bool)) :
    List (List Char) :=
  ((contents.map (·.2.1)).filter (· ≠ "")).map String.toList

theorem contentWords_cons {raw : String} (h : raw ≠ "") (kind : TokenKind) (value : Option String)
    (matched : Bool) (contents : List (TokenKind × String × Option String × Bool)) :
    contentWords ((kind, raw, value, matched) :: contents) =
      raw.toList :: contentWords contents := by
  simp [contentWords, h]

theorem contentWords_cons_empty (kind : TokenKind) (value : Option String) (matched : Bool)
    (contents : List (TokenKind × String × Option String × Bool)) :
    contentWords ((kind, "", value, matched) :: contents) = contentWords contents := by
  simp [contentWords]

theorem intercalate_eq_spread (ws : List (List Char)) :
    List.intercalate [' '] ws = spread true ws := by
  induction ws with
  | nil => rfl
  | cons w ws ih =>
    cases ws with
    | nil => simp [List.intercalate, spread]
    | cons v ws =>
      rw [List.intercalate_cons_cons, ih]
      simp [spread]

theorem toList_spaced (ts : List Token) :
    (Token.spaced ts).toList = spread true (contentWords (ts.map Token.content)) := by
  rw [Token.spaced, String.toList_intercalate, contentWords, List.map_map]
  exact intercalate_eq_spread _

theorem isWord_of_mem_contentWords {ws : List (List Char)} {later : List (List (List Char))}
    (hws : ∀ w ∈ ws, IsWord w) (hlater : ∀ line ∈ later, ∀ w ∈ line, IsWord w) :
    ∀ w ∈ contentWords (scan ws later), IsWord w := by
  fun_induction scan ws later with
  | case1 w ws later kind value hw ih =>
    obtain ⟨hw', hws⟩ := List.forall_mem_cons.1 hws
    rw [contentWords_cons (by simpa using hw'.1), String.toList_ofList]
    exact List.forall_mem_cons.2 ⟨hw', ih hws hlater⟩
  | case2 w ws later hw =>
    have hw' := (List.forall_mem_cons.1 hws).1
    rw [contentWords_cons (by simpa using hw'.1), String.toList_ofList]
    exact List.forall_mem_singleton.2 hw'
  | case3 next rest ih =>
    obtain ⟨hnext, hrest⟩ := List.forall_mem_cons.1 hlater
    rw [contentWords_cons_empty]
    exact ih hnext hrest
  | case4 => simp [contentWords]

/-- On one line, the words of some lines stand for the same tokens, the ends of
    lines aside. -/
theorem scan_contentWords {ws : List (List Char)} {later : List (List (List Char))}
    (hws : ∀ w ∈ ws, IsWord w) (hlater : ∀ line ∈ later, ∀ w ∈ line, IsWord w) :
    scan (contentWords (scan ws later)) [] =
      (scan ws later).filter (fun c => c.1 ≠ .endOfLine) := by
  fun_induction scan ws later with
  | case1 w ws later kind value hw ih =>
    obtain ⟨hw', hws⟩ := List.forall_mem_cons.1 hws
    have hne : kind ≠ .endOfLine := TokenKind.ne_endOfLine_of_isMarker (classify_eq_some hw).1
    rw [contentWords_cons (by simpa using hw'.1), List.filter_cons_of_pos (by simpa using hne),
      String.toList_ofList, scan, hw, ih hws hlater]
  | case2 w ws later hw =>
    have hw' := (List.forall_mem_cons.1 hws).1
    rw [contentWords_cons (by simpa using hw'.1), String.toList_ofList, contentWords, scan, hw]
    rfl
  | case3 next rest ih =>
    obtain ⟨hnext, hrest⟩ := List.forall_mem_cons.1 hlater
    rw [contentWords_cons_empty, ih hnext hrest]
    rfl
  | case4 =>
    rw [contentWords_cons_empty, contentWords, List.map_nil, List.filter_nil, List.map_nil, scan]
    rfl

/-- Words on one line are read from that line. -/
theorem wordLines_spread {ws : List (List Char)} (h : ∀ w ∈ ws, IsWord w) :
    wordLines (spread true ws) = [ws] := by
  have htight : Tight [ws] := by
    by_cases hne : ws = []
    · subst hne
      exact .inl rfl
    · exact .inr ⟨⟨ws, [], rfl, hne⟩, [], ws, rfl, hne⟩
  exact wordLines_layout htight (List.forall_mem_singleton.2 h)

/-- The tokens of a source written on one line are its tokens in other places,
    without the ends of lines. -/
theorem content_tokenize_spaced (source : String) :
    (tokenize (Token.spaced (tokenize source))).map Token.content =
      ((tokenize source).map Token.content).filter (fun c => c.1 ≠ .endOfLine) := by
  have hne : wordLines source.toList ≠ [] := by simp [wordLines, lines_ne_nil]
  have hwords := isWord_of_mem_wordLines source.toList
  obtain ⟨first, rest, hls⟩ := List.exists_cons_of_ne_nil hne
  rw [hls] at hwords
  obtain ⟨hfirst, hrest⟩ := List.forall_mem_cons.1 hwords
  rw [content_tokenize, toList_spaced, content_tokenize source, hls, scanLines,
    wordLines_spread (isWord_of_mem_contentWords hfirst hrest)]
  exact scan_contentWords hfirst hrest

/-! ## Layout and quoting -/

theorem content_significant (ts : List Token) :
    (Token.significant ts).map Token.content =
      (ts.map Token.content).filter (fun c => c.1 ≠ .endOfLine) := by
  rw [List.filter_map]
  rfl

/-- What the grammar sees of a source, read off its lines of words. -/
theorem symbols_significant (source : String) :
    (Token.significant (tokenize source)).map (fun t => (t.kind, t.value)) =
      ((scanLines (wordLines source.toList)).filter (fun c => c.1 ≠ .endOfLine)).map
        (fun c => (c.1, c.2.2.1)) := by
  rw [← content_tokenize, ← content_significant, List.map_map]
  rfl

/-- Sources whose significant tokens have the same contents are parsed to results
    that differ in the places of errors at most. -/
theorem sameResult_of_content {source source' : String}
    (h : (Token.significant (tokenize source)).map Token.content =
      (Token.significant (tokenize source')).map Token.content) :
    SameResult SyntaxError.SameButPlace (parse source) (parse source') := by
  refine sameResult_of_view Token.content (fun c => (c.1, c.2.2.1)) (fun _ => rfl)
    (fun production expected t u htu => ?_) h
  simp only [Token.content, Prod.mk.injEq] at htu
  simp [SyntaxError.SameButPlace, SyntaxError.ofToken, htu]

/-- Sources whose significant tokens agree on kind and value are parsed to the
    same program, or rejected for the same reason; if the tokens agree on the raw
    text too, then the errors differ in their places at most. That is so for a
    source whose tokens are written on one line, and for a rejoined source. -/
theorem parse_layout_and_quoting :
    (∀ source source' : String,
      (Token.significant (tokenize source)).map (fun t => (t.kind, t.value)) =
        (Token.significant (tokenize source')).map (fun t => (t.kind, t.value)) →
      SameResult SyntaxError.SameFault (parse source) (parse source') ∧
      ((Token.significant (tokenize source)).map Token.raw =
          (Token.significant (tokenize source')).map Token.raw →
        SameResult SyntaxError.SameButPlace (parse source) (parse source'))) ∧
    ∀ source : String,
      SameResult SyntaxError.SameButPlace (parse source)
        (parse (Token.spaced (tokenize source))) ∧
      SameResult SyntaxError.SameButPlace (parse source)
        (parse (Token.rejoin (tokenize source))) := by
  refine ⟨fun source source' hsymbols => ⟨?_, fun hraws => ?_⟩, fun source => ⟨?_, ?_⟩⟩
  · refine sameResult_of_view Token.symbol id (fun _ => rfl)
      (fun production expected t u htu => ?_) hsymbols
    exact ⟨rfl, rfl, (Token.symbol_eq_iff.1 htu).1⟩
  · have hpairs := congr (congrArg List.zip hsymbols) hraws
    rw [List.zip_map', List.zip_map'] at hpairs
    refine sameResult_of_view (fun t => ((t.kind, t.value), t.raw)) Prod.fst (fun _ => rfl)
      (fun production expected t u htu => ?_) hpairs
    simp only [Prod.mk.injEq] at htu
    simp [SyntaxError.SameButPlace, SyntaxError.ofToken, htu]
  · refine sameResult_of_content ?_
    rw [content_significant, content_significant, content_tokenize_spaced, List.filter_filter]
    simp
  · refine sameResult_of_content ?_
    rw [content_significant, content_significant, content_tokenize_rejoin]

/-- A line break inside a statement and the other quote make no difference. -/
theorem parse_line_break_and_quote :
    (Token.significant (tokenize "print \"done")).map (fun t => (t.kind, t.value)) =
        (Token.significant (tokenize "print\n  'done")).map (fun t => (t.kind, t.value)) ∧
      SameResult SyntaxError.SameFault (parse "print \"done") (parse "print\n  'done") := by
  have hprint : classify "print".toList = some (.procedure, some "print") := by decide
  have hdone : classify "\"done".toList = some (.word, some "done") := by decide
  have hdone' : classify "'done".toList = some (.word, some "done") := by decide
  have hline : wordLines "print \"done".toList = [["print".toList, "\"done".toList]] := by decide
  have hlines : wordLines "print\n  'done".toList = [["print".toList], ["'done".toList]] := by
    decide
  have h : (Token.significant (tokenize "print \"done")).map (fun t => (t.kind, t.value)) =
      (Token.significant (tokenize "print\n  'done")).map (fun t => (t.kind, t.value)) := by
    rw [symbols_significant, symbols_significant, hline, hlines]
    simp only [scanLines, scan, hprint, hdone, hdone']
    rfl
  exact ⟨h, (parse_layout_and_quoting.1 _ _ h).1⟩

end LogoSyntax

-- SUMMARY: What the grammar sees of a source: the words of the whole text, each in its place.
import LogoSyntax.Proofs.Text.Place

/-!
# Places of tokens

The grammar sees no lines. What it sees of a source are the components of the whole
trimmed source, one token for each, and the place of a token is told by the text in
front of its component (`significant_tokenize_eq`).

So the tokens up to a word depend on the text up to that word alone
(`exists_word_of_significant`, `significant_around_word`), and apart from their places
the tokens depend on the words of the text alone (`exists_tokens_of_symbols`).
-/

namespace LogoSyntax

open Text

/-! ## Components of lines and of texts -/

/-- The components of some lines with the numbers of their lines. The first line has
    number `line` and begins in column `col`. -/
def numbered (line col : Nat) : List (List Char) → List (Nat × Component)
  | [] => []
  | first :: rest => (componentsFrom col first).map (Prod.mk line) ++ numbered (line + 1) 1 rest

/-- A component of a text, with its line in the text and its column in that line. -/
def Component.placed (cs : List Char) (w : Component) : Nat × Component :=
  let p := place (cs.take (w.col - 1))
  (p.1, ⟨p.2, w.chars⟩)

theorem Component.placed_behind (before rest w : List Char) :
    placed (before ++ rest) ⟨before.length + 1, w⟩ =
      ((place before).1, ⟨(place before).2, w⟩) := by
  rw [placed, Nat.add_sub_cancel, List.take_left]

theorem head?_of_lines {cs line : List Char} {rest : List (List Char)}
    (h : lines cs = line :: rest) {c : Char} (hc : line.head? = some c) : cs.head? = some c := by
  fun_cases lines cs with
  | case1 => cases h; cases hc
  | case2 cs => cases h; cases hc
  | case3 cs => cases h; cases hc
  | case4 d cs hn hr =>
    obtain ⟨first, later, hl⟩ := List.exists_cons_of_ne_nil (lines_ne_nil cs)
    rw [lines_cons hn fun rest hd hcs => hr rest hd hcs, hl] at h
    cases h
    exact hc

/-- Cut into lines or not, a text has the same components in the same places. -/
theorem numbered_lines (before cs : List Char) :
    numbered (place before).1 (place before).2 (lines cs) =
      (componentsFrom (before.length + 1) cs).map (Component.placed (before ++ cs)) := by
  -- What was walked over goes to `before`, where the next place is read off.
  fun_induction lines cs generalizing before with
  | case1 => rfl
  | case2 cs ih =>
    have hnext := ih (before ++ ['\n'])
    rw [place_newline, List.length_append, List.append_assoc] at hnext
    exact hnext
  | case3 cs ih =>
    have hnext := ih (before ++ ['\r'] ++ ['\n'])
    rw [place_newline, place_of_ne (by decide), List.length_append, List.length_append,
      List.append_assoc, List.append_assoc] at hnext
    exact hnext
  | case4 c cs hn hr ih =>
    have hnext := ih (before ++ [c])
    rw [place_of_ne hn, List.length_append, List.append_assoc] at hnext
    obtain ⟨line, rest, hl⟩ := List.exists_cons_of_ne_nil (lines_ne_nil cs)
    rw [hl] at hnext ⊢
    simp only [numbered, List.length_singleton, List.singleton_append, consLine] at hnext ⊢
    by_cases hc : isBlank c = true
    · rw [componentsFrom, if_pos hc, componentsFrom, if_pos hc]
      exact hnext
    have hc : isBlank c = false := by simpa using hc
    -- The character ends a component, or it goes on in both the line and the whole text.
    by_cases hcs : ∀ d, cs.head? = some d → isBlank d = true
    · have hline : ∀ d, line.head? = some d → isBlank d = true :=
        fun d hd => hcs d (head?_of_lines hl hd)
      rw [Component.componentsFrom_before_blank hc hline,
        Component.componentsFrom_before_blank hc hcs, List.map_cons, List.map_cons,
        Component.placed_behind, List.cons_append, hnext]
    · obtain ⟨d, ds, rfl, hd⟩ := exists_cons_of_not_blank hcs
      obtain ⟨line, rest', hl'⟩ := head_lines ds hd
      obtain ⟨rfl, rfl⟩ := List.cons.inj (hl.symm.trans hl')
      obtain ⟨chars, tail, htail, heq⟩ :=
        Component.componentsFrom_before_word hc hd (place before).2 line
      obtain ⟨chars', tail', htail', heq'⟩ :=
        Component.componentsFrom_before_word hc hd (before.length + 1) ds
      rw [htail, htail', List.map_cons, List.map_cons, List.cons_append] at hnext
      rw [heq, heq', List.map_cons, List.map_cons, List.cons_append, Component.placed_behind]
      obtain ⟨hfirst, hrest⟩ := List.cons.inj hnext
      obtain rfl : chars = chars' := congrArg (fun p => p.2.chars) hfirst
      rw [hrest]

/-! ## Tokens of components -/

/-- The token of a component of a text. -/
def Token.ofComponent (cs : List Char) (w : Component) : Token :=
  Cursor.componentToken (w.placed cs).1 (w.placed cs).2

/-- The tokens of the components of a text, whether they are matched or not. -/
def Token.ofText (cs : List Char) : List Token :=
  (components cs).map (.ofComponent cs)

/-- The token of a word behind a text. -/
def Token.behind (before w : List Char) : Token :=
  Cursor.componentToken (place before).1 ⟨(place before).2, w⟩

@[simp] theorem Cursor.raw_componentToken (line : Nat) (w : Component) :
    (componentToken line w).raw = w.text := by
  unfold componentToken
  split <;> rfl

theorem Cursor.kind_componentToken (line : Nat) (w : Component) :
    (componentToken line w).kind ≠ .endOfLine := by
  intro h
  rcases componentToken_cases line w with hc | ⟨-, hk⟩
  · exact TokenKind.ne_endOfLine_of_isMarker hc.isMarker h
  · simp [hk] at h

theorem significant_lineTokens (total line : Nat) (cs : List Char) :
    Token.significant (lineTokens total (cs, line)) =
      (components cs).map (Cursor.componentToken line) ++
        if line = total then [.marker .noMore false line (cs.length + 1)] else [] := by
  have hwords : Token.significant ((components cs).map (Cursor.componentToken line)) =
      (components cs).map (Cursor.componentToken line) := by
    refine List.filter_eq_self.2 fun t ht => ?_
    obtain ⟨w, -, rfl⟩ := List.mem_map.1 ht
    simpa using Cursor.kind_componentToken line w
  rw [lineTokens, Token.significant_append, ← components_eq_runs, hwords]
  unfold lineEnd
  split <;> rfl

theorem mem_ofText {cs : List Char} {t : Token} (h : t ∈ Token.ofText cs) :
    t.raw ≠ "" ∧ (t.Classified ∨ (t.matched = false ∧ t.kind = .notFound)) := by
  obtain ⟨w, hw, rfl⟩ := List.mem_map.1 h
  refine ⟨?_, Cursor.componentToken_cases _ _⟩
  simpa [Token.ofComponent, Component.placed, Component.text] using (Component.sound_of_mem hw).1

theorem classified_of_mem_ofText {cs : List Char} {t : Token} (h : t ∈ Token.ofText cs)
    (hm : t.matched = true) : t.Classified := by
  refine (mem_ofText h).2.resolve_right ?_
  rintro ⟨hnot, -⟩
  simp [hm] at hnot

theorem kind_ne_noMore_of_mem_ofText {cs : List Char} {t : Token} (h : t ∈ Token.ofText cs) :
    t.kind ≠ .noMore := by
  intro hk
  rcases (mem_ofText h).2 with hc | ⟨-, hfound⟩
  · simpa [hk, TokenKind.isMarker] using hc.isMarker
  · simp [hk] at hfound

/-- Of the ends of some lines, the grammar sees the last one alone. -/
theorem significant_flatMap_lineTokens (line : Nat) (first : List Char)
    (rest : List (List Char)) : ∃ col,
      Token.significant (((first :: rest).zipIdx line).flatMap (lineTokens (line + rest.length))) =
        (numbered line 1 (first :: rest)).map (fun p => Cursor.componentToken p.1 p.2) ++
          [.marker .noMore false (line + rest.length) col] := by
  induction rest generalizing line first with
  | nil =>
    refine ⟨first.length + 1, ?_⟩
    rw [List.zipIdx_cons, List.flatMap_cons, Token.significant_append, significant_lineTokens]
    simp [numbered, components]
  | cons next rest ih =>
    obtain ⟨col, hcol⟩ := ih (line + 1) next
    have htotal : line + 1 + rest.length = line + (next :: rest).length := by
      rw [List.length_cons]
      omega
    have hlines : numbered line 1 (first :: next :: rest) =
        (components first).map (Prod.mk line) ++ numbered (line + 1) 1 (next :: rest) := rfl
    rw [htotal] at hcol
    refine ⟨col, ?_⟩
    rw [List.zipIdx_cons, List.flatMap_cons, Token.significant_append, significant_lineTokens,
      hcol, if_neg (by rw [List.length_cons]; omega), hlines, List.map_append, List.map_map,
      List.append_nil, List.append_assoc]
    rfl

theorem endOfLine_of_mem_lineTokens {total : Nat} {line : List Char × Nat} {t : Token}
    (h : t ∈ lineTokens total line) (hk : t.kind = .endOfLine) :
    t.matched = true ∧ t.raw = "" := by
  rcases List.mem_append.1 h with h | h
  · obtain ⟨w, -, rfl⟩ := List.mem_map.1 h
    exact absurd hk (Cursor.kind_componentToken _ w)
  · obtain rfl := List.mem_singleton.1 h
    unfold lineEnd at hk ⊢
    split
    · next hline =>
      rw [if_pos hline] at hk
      cases hk
    · exact ⟨rfl, rfl⟩

theorem significant_upToUnmatched {ts : List Token}
    (h : ∀ t ∈ ts, t.kind = .endOfLine → t.matched = true) :
    Token.significant (upToUnmatched ts) = upToUnmatched (Token.significant ts) := by
  induction ts with
  | nil => rfl
  | cons t ts ih =>
    obtain ⟨ht, hts⟩ := List.forall_mem_cons.1 h
    by_cases hk : t.kind = .endOfLine
    · rw [upToUnmatched_cons_of_matched (ht hk), Token.significant_cons_endOfLine hk,
        Token.significant_cons_endOfLine hk, ih hts]
    · rw [Token.significant_cons_of_ne hk]
      cases hm : t.matched with
      | true =>
        rw [upToUnmatched_cons_of_matched hm, upToUnmatched_cons_of_matched hm,
          Token.significant_cons_of_ne hk, ih hts]
      | false =>
        rw [upToUnmatched_cons_of_not_matched hm, upToUnmatched_cons_of_not_matched hm,
          Token.significant_cons_of_ne hk]
        rfl

/-- What the grammar sees of a source: the tokens of the components of the trimmed
    source up to the first that no shape fits, or all of them and the end. -/
theorem significant_tokenize_eq (source : String) : ∃ line col,
    Token.significant (tokenize source) =
      upToUnmatched (Token.ofText (trim source.toList) ++
        [.marker .noMore false line col]) := by
  obtain ⟨first, rest, hl⟩ := List.exists_cons_of_ne_nil (lines_ne_nil (trim source.toList))
  obtain ⟨col, hcol⟩ := significant_flatMap_lineTokens 1 first rest
  have hplaces := numbered_lines [] (trim source.toList)
  rw [hl] at hplaces
  refine ⟨1 + rest.length, col, ?_⟩
  rw [tokenize_eq_upToUnmatched, hl, significant_upToUnmatched, List.length_cons, Nat.add_comm,
    hcol]
  · rw [show numbered 1 1 (first :: rest) = _ from hplaces, List.map_map]
    rfl
  · intro t ht
    obtain ⟨line, -, ht⟩ := List.mem_flatMap.1 ht
    exact fun hk => (endOfLine_of_mem_lineTokens ht hk).1

/-! ## The tokens in front of a word -/

theorem exists_upToUnmatched_cons (t : Token) (ts : List Token) :
    ∃ rest, upToUnmatched (t :: ts) = t :: rest := by
  cases h : t.matched with
  | true => exact ⟨_, upToUnmatched_cons_of_matched h ts⟩
  | false => exact ⟨_, upToUnmatched_cons_of_not_matched h ts⟩

/-- What stands in front of a token that is kept is matched. -/
theorem matched_of_upToUnmatched {ts us rest : List Token} {t : Token}
    (h : upToUnmatched ts = us ++ t :: rest) :
    (∀ u ∈ us, u.matched = true) ∧ ∃ more, ts = us ++ t :: more := by
  induction ts generalizing us with
  | nil => simp [upToUnmatched] at h
  | cons s ts ih =>
    cases us with
    | nil =>
      obtain ⟨kept, hkept⟩ := exists_upToUnmatched_cons s ts
      obtain ⟨rfl, -⟩ := List.cons.inj (hkept.symm.trans h)
      exact ⟨by simp, ts, rfl⟩
    | cons u us =>
      cases hs : s.matched with
      | true =>
        rw [upToUnmatched_cons_of_matched hs, List.cons_append] at h
        obtain ⟨rfl, htail⟩ := List.cons.inj h
        obtain ⟨hus, more, rfl⟩ := ih htail
        exact ⟨List.forall_mem_cons.2 ⟨hs, hus⟩, more, rfl⟩
      | false =>
        rw [upToUnmatched_cons_of_not_matched hs] at h
        simp at h

theorem upToUnmatched_append {us : List Token} (hus : ∀ u ∈ us, u.matched = true)
    (ts : List Token) : upToUnmatched (us ++ ts) = us ++ upToUnmatched ts := by
  induction us with
  | nil => rfl
  | cons u us ih =>
    obtain ⟨hu, hus⟩ := List.forall_mem_cons.1 hus
    rw [List.cons_append, upToUnmatched_cons_of_matched hu, ih hus, List.cons_append]

theorem ofComponent_append {before : List Char} {w : Component} (h : w ∈ components before)
    (rest : List Char) : Token.ofComponent (before ++ rest) w = Token.ofComponent before w := by
  have hcol : w.col < 1 + before.length := Component.col_lt_of_mem h
  have htake : (before ++ rest).take (w.col - 1) = before.take (w.col - 1) :=
    List.take_append_of_le_length (by omega)
  rw [Token.ofComponent, Token.ofComponent, Component.placed, Component.placed, htake]

theorem ofComponent_behind (before rest w : List Char) :
    Token.ofComponent (before ++ rest) ⟨before.length + 1, w⟩ = Token.behind before w := by
  rw [Token.ofComponent, Component.placed_behind]
  rfl

/-- The token of a word stands behind those of the text in front of the word. -/
theorem ofText_around_word {before w behind : List Char} (h : IsWordBetween before w behind) :
    ∃ rest, Token.ofText (before ++ w ++ behind) =
      Token.ofText before ++ Token.behind before w :: rest := by
  have hwords := componentsFrom_around_word 1 h
  have hword := ofComponent_behind before (w ++ behind) w
  have hfront : (components before).map (.ofComponent (before ++ (w ++ behind))) =
      Token.ofText before := List.map_congr_left fun v hv => ofComponent_append hv _
  rw [← List.append_assoc] at hword hfront
  refine ⟨(componentsFrom (before.length + 1 + w.length) behind).map
    (.ofComponent (before ++ w ++ behind)), ?_⟩
  rw [Token.ofText, components, hwords, List.map_append, List.map_cons, Nat.add_comm 1, hword,
    ← hfront]
  rfl

/-- In front of a token with a raw text, the grammar sees the tokens of the text in front
    of a word, which are all matched, and it sees that token at the word. -/
theorem exists_word_of_significant {source : String} {us rest : List Token} {t : Token}
    (h : Token.significant (tokenize source) = us ++ t :: rest) (hraw : t.raw ≠ "") :
    ∃ before w behind, trim source.toList = before ++ w ++ behind ∧
      IsWordBetween before w behind ∧ us = Token.ofText before ∧ t = Token.behind before w ∧
      ∀ u ∈ us, u.matched = true := by
  obtain ⟨line, col, hts⟩ := significant_tokenize_eq source
  obtain ⟨hus, more, hmore⟩ := matched_of_upToUnmatched (hts.symm.trans h)
  obtain ⟨more, l, rfl⟩ : ∃ front l, more = front ++ [l] := by
    refine exists_append_singleton fun hnil => hraw ?_
    rw [hnil] at hmore
    obtain ⟨-, hlast⟩ := List.append_inj' hmore rfl
    rw [← List.singleton_inj.1 hlast]
    rfl
  rw [← List.cons_append, ← List.append_assoc] at hmore
  obtain ⟨htext, -⟩ := List.append_inj' hmore rfl
  obtain ⟨ws, _, hcomponents, rfl, htail⟩ := List.map_eq_append_iff.1 htext
  obtain ⟨w, vs, rfl, rfl, -⟩ := List.map_eq_cons_iff.1 htail
  obtain ⟨before, behind, hcs, hw, hwcol, rfl⟩ := exists_split_of_componentsFrom hcomponents
  refine ⟨before, w.chars, behind, hcs, hw, ?_, ?_, hus⟩
  · rw [hcs, List.append_assoc]
    exact List.map_congr_left fun v hv => ofComponent_append hv _
  · rw [hcs, List.append_assoc, ← ofComponent_behind before (w.chars ++ behind), Nat.add_comm,
      ← hwcol]

/-- The grammar sees the token of a word behind those of the text in front of the word,
    if all of these are matched. -/
theorem significant_around_word {source : String} {before w behind : List Char}
    (hcs : trim source.toList = before ++ w ++ behind) (hw : IsWordBetween before w behind)
    (hbefore : ∀ u ∈ Token.ofText before, u.matched = true) : ∃ rest,
      Token.significant (tokenize source) =
        Token.ofText before ++ Token.behind before w :: rest := by
  obtain ⟨line, col, hts⟩ := significant_tokenize_eq source
  obtain ⟨more, hmore⟩ := ofText_around_word hw
  obtain ⟨rest, hrest⟩ := exists_upToUnmatched_cons (.behind before w)
    (more ++ [.marker .noMore false line col])
  refine ⟨rest, ?_⟩
  rw [hts, hcs, hmore, List.append_assoc, upToUnmatched_append hbefore, List.cons_append, hrest]

/-! ## Sources of which every word fits some shape -/

theorem Cursor.symbol_componentToken {line : Nat} {w : Component}
    (h : (componentToken line w).matched = true) :
    some (componentToken line w).symbol = classify w.chars := by
  rw [matched_componentToken] at h
  obtain ⟨⟨kind, value⟩, hw⟩ := Option.isSome_iff_exists.1 h
  simp [componentToken, hw, Token.symbol]

/-- The symbols of matched tokens are what their words are classified as. -/
theorem map_symbol_ofText {cs : List Char} (h : ∀ t ∈ Token.ofText cs, t.matched = true) :
    (Token.ofText cs).map (fun t => some t.symbol) = (words cs).map classify := by
  unfold Token.ofText words
  rw [List.map_map, List.map_map]
  refine List.map_congr_left fun w hw => ?_
  exact Cursor.symbol_componentToken (h _ (List.mem_map_of_mem hw))

theorem matched_ofText_iff {cs : List Char} :
    (∀ t ∈ Token.ofText cs, t.matched = true) ↔ ∀ w ∈ words cs, (classify w).isSome = true := by
  unfold Token.ofText words
  rw [List.forall_mem_map, List.forall_mem_map]
  refine forall₂_congr fun w _ => ?_
  rw [Token.ofComponent, Cursor.matched_componentToken]
  rfl

/-- A source of which every word fits some shape is read to one token for each word, as
    which the word is classified, and the end. -/
theorem exists_tokens_of_classified {source : String}
    (h : ∀ w ∈ words source.toList, (classify w).isSome = true) : ∃ ts last,
      Token.significant (tokenize source) = ts ++ [last] ∧
      ts.map (fun t => some t.symbol) = (words source.toList).map classify ∧
      last.symbol = (.noMore, none) := by
  rw [← words_trim] at h
  have hmatched := matched_ofText_iff.2 h
  obtain ⟨line, col, hts⟩ := significant_tokenize_eq source
  rw [upToUnmatched_append hmatched, upToUnmatched_cons_of_not_matched rfl] at hts
  exact ⟨_, _, hts, by rw [map_symbol_ofText hmatched, words_trim], rfl⟩

/-- A source of which the words are classified as some symbols is read to tokens with
    these symbols, and the end. -/
theorem exists_tokens_of_symbols {source : String} {symbols : List (TokenKind × Option String)}
    (h : (words source.toList).map classify = symbols.map some) : ∃ ts last,
      Token.significant (tokenize source) = ts ++ [last] ∧
      ts.map Token.symbol = symbols ∧ last.symbol = (.noMore, none) := by
  have hclassified : ∀ w ∈ words source.toList, (classify w).isSome = true := by
    intro w hw
    obtain ⟨symbol, -, hsymbol⟩ := List.mem_map.1 (h ▸ List.mem_map_of_mem hw)
    rw [← hsymbol]
    rfl
  obtain ⟨ts, last, hts, hsymbols, hlast⟩ := exists_tokens_of_classified hclassified
  have hsome : (ts.map Token.symbol).map some = symbols.map some := by
    rw [List.map_map, ← h, ← hsymbols]
    rfl
  exact ⟨ts, last, hts, (List.map_inj_right fun _ _ => Option.some.inj).1 hsome, hlast⟩

end LogoSyntax

-- SUMMARY: Tokens read off a source without a cursor: its lines, the runs in them, and the places of both.
import LogoSyntax.Proofs.Grammar.Program
import LogoSyntax.Proofs.Text.Layout

/-!
# Reading without a cursor

`reading` says what the tokens of a source are without walking over it: cut the
trimmed source into lines, number them, split every line at its blank characters,
and put down one token for each run and one for each end of a line, up to the
first that is not matched. Columns come from numbering the characters.

The main statement is that the cursor produces exactly this
(`tokenize_eq_reading`).
-/

namespace LogoSyntax

open Text

/-! ## Lines -/

namespace Text

/-- A line without a carriage return at its end. -/
def dropReturn (line : List Char) : List Char :=
  if line.getLast? = some '\r' then line.dropLast else line

/-- Drops the carriage return at the end of every line but the last. -/
def dropReturns : List (List Char) → List (List Char)
  | [] => []
  | [last] => [last]
  | line :: next :: rest => dropReturn line :: dropReturns (next :: rest)

/-- The lines of a text: the pieces between its line feeds, where every line feed
    takes a carriage return directly before it along. -/
def cutLines (cs : List Char) : List (List Char) :=
  dropReturns (cs.splitOn '\n')

theorem dropReturns_cons {line : List Char} {rest : List (List Char)} (h : rest ≠ []) :
    dropReturns (line :: rest) = dropReturn line :: dropReturns rest := by
  obtain ⟨next, rest, rfl⟩ := List.exists_cons_of_ne_nil h
  rfl

theorem dropReturn_cons {c : Char} {line : List Char} (h : line = [] → c ≠ '\r') :
    dropReturn (c :: line) = c :: dropReturn line := by
  cases line with
  | nil => simp [dropReturn, h rfl]
  | cons d line =>
    simp only [dropReturn, List.getLast?_cons_cons, List.dropLast_cons_cons]
    split <;> rfl

theorem splitOn_newline (cs : List Char) :
    ('\n' :: cs).splitOn '\n' = [] :: cs.splitOn '\n' := by
  simp [List.splitOn_cons_eq_if_modifyHead]

theorem splitOn_cons_of_ne {c : Char} (h : c ≠ '\n') (cs : List Char) :
    (c :: cs).splitOn '\n' = (cs.splitOn '\n').modifyHead (c :: ·) := by
  simp [List.splitOn_cons_eq_if_modifyHead, h]

/-- An empty first piece stands in front of a line feed, or is all there is. -/
theorem eq_newline_cons_of_splitOn {cs piece : List Char} {pieces : List (List Char)}
    (h : cs.splitOn '\n' = [] :: piece :: pieces) : ∃ rest, cs = '\n' :: rest := by
  cases cs with
  | nil => simp at h
  | cons c cs =>
    by_cases hc : c = '\n'
    · exact ⟨cs, by rw [hc]⟩
    · rw [splitOn_cons_of_ne hc] at h
      cases hs : cs.splitOn '\n' <;> simp [hs] at h

theorem cutLines_newline (cs : List Char) : cutLines ('\n' :: cs) = [] :: cutLines cs := by
  rw [cutLines, splitOn_newline, dropReturns_cons (List.splitOn_ne_nil _ _)]
  rfl

/-- Reading a text from its front cuts it into the same lines. -/
theorem lines_eq_cutLines (cs : List Char) : lines cs = cutLines cs := by
  fun_induction lines cs with
  | case1 => rfl
  | case2 cs ih => rw [cutLines_newline, ih]
  | case3 cs ih =>
    rw [cutLines, splitOn_cons_of_ne (by decide), splitOn_newline, List.modifyHead_cons,
      dropReturns_cons (List.splitOn_ne_nil _ _), ih]
    rfl
  | case4 c cs hn hr ih =>
    rw [ih, cutLines, cutLines, splitOn_cons_of_ne hn]
    obtain ⟨piece, pieces, hs⟩ := List.exists_cons_of_ne_nil (List.splitOn_ne_nil '\n' cs)
    rw [hs, List.modifyHead_cons]
    cases pieces with
    | nil => rfl
    | cons next pieces =>
      have hc : piece = [] → c ≠ '\r' := by
        rintro rfl hc
        obtain ⟨rest, rfl⟩ := eq_newline_cons_of_splitOn hs
        exact hr rest hc rfl
      rw [dropReturns, dropReturns, dropReturn_cons hc]
      rfl

end Text

/-! ## Components -/

namespace Component

/-- The component is a run in a text whose first character stands in column `col`,
    and no character beside the run continues it. -/
def Maximal (w : Component) (col : Nat) (cs : List Char) : Prop :=
  ∃ before behind, cs = before ++ w.chars ++ behind ∧ w.col = col + before.length ∧
    IsWord w.chars ∧ (∀ c, before.getLast? = some c → isBlank c = true) ∧
    ∀ c, behind.head? = some c → isBlank c = true

theorem exists_consChar_eq (col : Nat) (c : Char) (ws : List Component) :
    ∃ chars tail, consChar col c ws = ⟨col, chars⟩ :: tail ∧ tail <:+ ws := by
  cases ws with
  | nil => exact ⟨[c], [], rfl, List.suffix_rfl⟩
  | cons w ws =>
    rw [consChar]
    split
    · exact ⟨_, ws, rfl, List.suffix_cons w ws⟩
    · exact ⟨_, w :: ws, rfl, List.suffix_rfl⟩

theorem consChar_of_gap {col : Nat} {ws : List Component} (h : ∀ w ∈ ws, w.col ≠ col + 1)
    (c : Char) : consChar col c ws = ⟨col, [c]⟩ :: ws := by
  cases ws with
  | nil => rfl
  | cons w ws => rw [consChar, if_neg (h w List.mem_cons_self)]

/-- A text that begins with a blank character has no component in its first column. -/
theorem lt_col_of_mem {col : Nat} {cs : List Char} {w : Component}
    (hcs : ∀ d, cs.head? = some d → isBlank d = true) (h : w ∈ componentsFrom col cs) :
    col < w.col := by
  cases cs with
  | nil => cases h
  | cons d ds =>
    rw [componentsFrom, if_pos (hcs d rfl)] at h
    exact le_col_of_mem h

theorem componentsFrom_before_blank {c : Char} {cs : List Char} (hc : isBlank c = false)
    (hcs : ∀ d, cs.head? = some d → isBlank d = true) (col : Nat) :
    componentsFrom col (c :: cs) = ⟨col, [c]⟩ :: componentsFrom (col + 1) cs := by
  rw [componentsFrom, if_neg (by simp [hc])]
  exact consChar_of_gap (fun w hw => Nat.ne_of_gt (lt_col_of_mem hcs hw)) c

theorem componentsFrom_before_word {c d : Char} (hc : isBlank c = false) (hd : isBlank d = false)
    (col : Nat) (ds : List Char) : ∃ chars tail,
      componentsFrom (col + 1) (d :: ds) = ⟨col + 1, chars⟩ :: tail ∧
      componentsFrom col (c :: d :: ds) = ⟨col, c :: chars⟩ :: tail := by
  obtain ⟨chars, tail, heq, -⟩ := exists_consChar_eq (col + 1) d (componentsFrom (col + 1 + 1) ds)
  have hnext : componentsFrom (col + 1) (d :: ds) = ⟨col + 1, chars⟩ :: tail := by
    rw [componentsFrom, if_neg (by simp [hd]), heq]
  refine ⟨chars, tail, hnext, ?_⟩
  rw [componentsFrom, if_neg (by simp [hc]), hnext, consChar, if_pos rfl]

/-- The components of a text stand in ascending columns. -/
theorem pairwise_col (col : Nat) (cs : List Char) :
    (componentsFrom col cs).Pairwise fun w v => w.col < v.col := by
  induction cs generalizing col with
  | nil => exact .nil
  | cons c cs ih =>
    rw [componentsFrom]
    split
    · exact ih (col + 1)
    · obtain ⟨chars, tail, heq, htail⟩ := exists_consChar_eq col c (componentsFrom (col + 1) cs)
      rw [heq]
      refine .cons (fun v hv => ?_) ((ih (col + 1)).sublist htail.sublist)
      exact le_col_of_mem (htail.subset hv)

theorem Maximal.cons {c : Char} {cs : List Char} {col : Nat} {w : Component}
    (h : w.Maximal (col + 1) cs) (hc : isBlank c = true ∨ col + 1 < w.col) :
    w.Maximal col (c :: cs) := by
  obtain ⟨before, behind, rfl, hcol, hw, hbefore, hbehind⟩ := h
  refine ⟨c :: before, behind, rfl, by rw [hcol, List.length_cons]; omega, hw, ?_, hbehind⟩
  intro d hd
  rw [List.getLast?_cons] at hd
  cases hl : before.getLast? with
  | none =>
    obtain rfl := List.getLast?_eq_none_iff.1 hl
    obtain rfl : c = d := by simpa using hd
    exact hc.resolve_right (by simp [hcol])
  | some e =>
    obtain rfl : e = d := by simpa [hl] using hd
    exact hbefore e hl

theorem maximal_of_mem {col : Nat} {cs : List Char} {w : Component}
    (h : w ∈ componentsFrom col cs) : w.Maximal col cs := by
  induction cs generalizing col w with
  | nil => cases h
  | cons c cs ih =>
    by_cases hc : isBlank c = true
    · rw [componentsFrom, if_pos hc] at h
      exact (ih h).cons (.inl hc)
    have hc : isBlank c = false := by simpa using hc
    by_cases hcs : ∀ d, cs.head? = some d → isBlank d = true
    · rw [componentsFrom_before_blank hc hcs] at h
      rcases List.mem_cons.1 h with rfl | h
      · exact ⟨[], cs, rfl, rfl, isWord_singleton hc, by simp, hcs⟩
      · exact (ih h).cons (.inr (lt_col_of_mem hcs h))
    · obtain ⟨d, ds, rfl, hd⟩ := exists_cons_of_not_blank hcs
      obtain ⟨chars, tail, hnext, heq⟩ := componentsFrom_before_word hc hd col ds
      rw [heq] at h
      replace ih : ∀ v ∈ (⟨col + 1, chars⟩ :: tail : List Component),
          v.Maximal (col + 1) (d :: ds) := fun v hv => ih (hnext ▸ hv)
      rcases List.mem_cons.1 h with rfl | h
      · obtain ⟨before, behind, hds, hcol, hw, -, hbehind⟩ := ih _ List.mem_cons_self
        obtain rfl : before = [] := List.length_eq_zero_iff.1 (by simpa using hcol)
        refine ⟨[], behind, by rw [hds]; rfl, rfl, ⟨by simp, ?_⟩, by simp, hbehind⟩
        exact List.forall_mem_cons.2 ⟨hc, hw.2⟩
      · have hcols := pairwise_col (col + 1) (d :: ds)
        rw [hnext] at hcols
        exact (ih w (List.mem_cons_of_mem _ h)).cons (.inr ((List.pairwise_cons.1 hcols).1 w h))

theorem mem_consChar_of_ne {col : Nat} {ws : List Component} {w : Component} (h : w ∈ ws)
    (hcol : w.col ≠ col + 1) (c : Char) : w ∈ consChar col c ws := by
  cases ws with
  | nil => cases h
  | cons v vs =>
    rw [consChar]
    split
    · next hv =>
      rcases List.mem_cons.1 h with rfl | h
      · exact absurd hv hcol
      · exact List.mem_cons_of_mem _ h
    · exact List.mem_cons_of_mem _ h

/-- Behind a blank character, or at the beginning, components are found as in a
    text of their own. -/
theorem mem_componentsFrom_append {before rest : List Char} {w : Component} (col : Nat)
    (hbefore : ∀ c, before.getLast? = some c → isBlank c = true)
    (h : w ∈ componentsFrom (col + before.length) rest) :
    w ∈ componentsFrom col (before ++ rest) := by
  induction before generalizing col with
  | nil => exact h
  | cons c before ih =>
    rw [List.length_cons, ← Nat.add_assoc, Nat.add_right_comm] at h
    have hlater : w ∈ componentsFrom (col + 1) (before ++ rest) := by
      refine ih (col + 1) (fun d hd => hbefore d ?_) h
      rw [List.getLast?_cons, hd]
      rfl
    rw [List.cons_append, componentsFrom]
    split
    · exact hlater
    · next hc =>
      have hne : before ≠ [] := by
        rintro rfl
        exact hc (hbefore c rfl)
      have hpos := List.length_pos_iff.2 hne
      have hcol := le_col_of_mem h
      exact mem_consChar_of_ne hlater (by omega) c

/-- The components of a text are its maximal runs. -/
theorem mem_componentsFrom_iff {col : Nat} {cs : List Char} {w : Component} :
    w ∈ componentsFrom col cs ↔ w.Maximal col cs := by
  refine ⟨maximal_of_mem, ?_⟩
  rintro ⟨before, behind, rfl, hcol, hw, hbefore, hbehind⟩
  rw [List.append_assoc]
  refine mem_componentsFrom_append col hbefore ?_
  have hhead : ∀ c rest, behind = c :: rest → isBlank c = true := by
    rintro c rest rfl
    exact hbehind c rfl
  rw [componentsFrom_word _ hw hhead, ← hcol]
  exact List.mem_cons_self

end Component

/-! ## Runs -/

/-- The component of some numbered characters, if there are any. -/
def Component.ofNumbered : List (Char × Nat) → Option Component
  | [] => none
  | (c, col) :: rest => some ⟨col, c :: rest.map Prod.fst⟩

/-- The runs of characters that are not blank: the characters are numbered from
    `col` and split at the blank ones, and empty pieces are dropped. -/
def runsFrom (col : Nat) (line : List Char) : List Component :=
  ((line.zipIdx col).splitOnP fun c => isBlank c.1).filterMap Component.ofNumbered

/-- The runs of a line. -/
def runs (line : List Char) : List Component :=
  runsFrom 1 line

theorem runsFrom_blank {c : Char} (h : isBlank c = true) (col : Nat) (cs : List Char) :
    runsFrom col (c :: cs) = runsFrom (col + 1) cs := by
  rw [runsFrom, List.zipIdx_cons, List.splitOnP_cons_eq_if_modifyHead, if_pos h,
    List.filterMap_cons_none rfl, runsFrom]

theorem runsFrom_of_not_blank {c : Char} (h : isBlank c = false) (col : Nat) (cs : List Char) :
    runsFrom col (c :: cs) =
      (((cs.zipIdx (col + 1)).splitOnP fun c => isBlank c.1).modifyHead ((c, col) :: ·)).filterMap
        Component.ofNumbered := by
  rw [runsFrom, List.zipIdx_cons, List.splitOnP_cons_eq_if_modifyHead, if_neg (by simp [h])]

theorem runsFrom_before_blank {c : Char} {cs : List Char} (hc : isBlank c = false)
    (hcs : ∀ d, cs.head? = some d → isBlank d = true) (col : Nat) :
    runsFrom col (c :: cs) = ⟨col, [c]⟩ :: runsFrom (col + 1) cs := by
  rw [runsFrom_of_not_blank hc]
  cases cs with
  | nil => rfl
  | cons d ds =>
    rw [runsFrom_blank (hcs d rfl), List.zipIdx_cons, List.splitOnP_cons_eq_if_modifyHead,
      if_pos (hcs d rfl)]
    rfl

theorem runsFrom_before_word {c d : Char} (hc : isBlank c = false) (hd : isBlank d = false)
    (col : Nat) (ds : List Char) : ∃ chars tail,
      runsFrom (col + 1) (d :: ds) = ⟨col + 1, chars⟩ :: tail ∧
      runsFrom col (c :: d :: ds) = ⟨col, c :: chars⟩ :: tail := by
  obtain ⟨piece, pieces, hs⟩ := List.exists_cons_of_ne_nil
    (List.splitOnP_ne_nil (fun c => isBlank c.1) (ds.zipIdx (col + 1 + 1)))
  refine ⟨d :: piece.map Prod.fst, pieces.filterMap Component.ofNumbered, ?_, ?_⟩
  · rw [runsFrom_of_not_blank hd, hs]
    rfl
  · rw [runsFrom_of_not_blank hc, List.zipIdx_cons, List.splitOnP_cons_eq_if_modifyHead,
      if_neg (by simp [hd]), hs]
    rfl

/-- Reading a line from its end finds the same runs. -/
theorem componentsFrom_eq_runsFrom (col : Nat) (cs : List Char) :
    componentsFrom col cs = runsFrom col cs := by
  induction cs generalizing col with
  | nil => rfl
  | cons c cs ih =>
    by_cases hc : isBlank c = true
    · rw [componentsFrom, if_pos hc, runsFrom_blank hc, ih]
    have hc : isBlank c = false := by simpa using hc
    by_cases hcs : ∀ d, cs.head? = some d → isBlank d = true
    · rw [Component.componentsFrom_before_blank hc hcs, runsFrom_before_blank hc hcs, ih]
    · obtain ⟨d, ds, rfl, hd⟩ := exists_cons_of_not_blank hcs
      obtain ⟨chars, tail, hnext, heq⟩ := Component.componentsFrom_before_word hc hd col ds
      obtain ⟨chars', tail', hnext', heq'⟩ := runsFrom_before_word hc hd col ds
      rw [ih, hnext'] at hnext
      obtain ⟨hhead, rfl⟩ := List.cons.inj hnext
      obtain rfl : chars' = chars := congrArg Component.chars hhead
      rw [heq, heq']

theorem components_eq_runs (line : List Char) : components line = runs line :=
  componentsFrom_eq_runsFrom 1 line

/-! ## The reading -/

/-- The token at the end of a line: the last of all lines ends with the source. -/
def lineEnd (total line col : Nat) : Token :=
  if line = total then .marker .noMore false line col else .marker .endOfLine true line col

/-- The tokens of a numbered line, whether they are matched or not. -/
def lineTokens (total : Nat) (numbered : List Char × Nat) : List Token :=
  (runs numbered.1).map (Cursor.componentToken numbered.2) ++
    [lineEnd total numbered.2 (numbered.1.length + 1)]

/-- The tokens up to and including the first that is not matched. -/
def upToUnmatched (ts : List Token) : List Token :=
  ts.takeWhile (·.matched) ++ (ts.dropWhile (·.matched)).head?.toList

/-- The tokens of a source, read off its lines. -/
def reading (source : String) : List Token :=
  let ls := cutLines (trim source.toList)
  upToUnmatched ((ls.zipIdx 1).flatMap (lineTokens ls.length))

theorem lineEnd_of_ne {total line : Nat} (h : line ≠ total) (col : Nat) :
    lineEnd total line col = .marker .endOfLine true line col :=
  if_neg h

theorem upToUnmatched_cons_of_matched {t : Token} (h : t.matched = true) (ts : List Token) :
    upToUnmatched (t :: ts) = t :: upToUnmatched ts := by
  simp [upToUnmatched, h]

theorem upToUnmatched_cons_of_not_matched {t : Token} (h : t.matched = false) (ts : List Token) :
    upToUnmatched (t :: ts) = [t] := by
  simp [upToUnmatched, h]

theorem upToUnmatched_sublist (ts : List Token) : (upToUnmatched ts).Sublist ts := by
  induction ts with
  | nil => exact List.Sublist.refl []
  | cons t ts ih =>
    cases h : t.matched with
    | true =>
      rw [upToUnmatched_cons_of_matched h]
      exact ih.cons_cons t
    | false =>
      rw [upToUnmatched_cons_of_not_matched h]
      exact (List.nil_sublist ts).cons_cons t

/-- The tokens of a numbered line of which the components are known. -/
def Line.tokens (total : Nat) (numbered : Line × Nat) : List Token :=
  numbered.1.components.map (Cursor.componentToken numbered.2) ++
    [lineEnd total numbered.2 numbered.1.endCol]

namespace Cursor

/-- The tokens of the rest of the current line and of the lines behind it, whether
    they are matched or not. -/
def rest (c : Cursor) : List Token :=
  let total := c.line + c.later.length
  c.ahead.map (componentToken c.line) ++ lineEnd total c.line c.endCol ::
    (c.later.zipIdx (c.line + 1)).flatMap (Line.tokens total)

theorem exists_rest_eq_cons (c : Cursor) : ∃ ts, c.rest = c.token :: ts := by
  rcases c with ⟨line, endCol, ahead, later⟩
  cases ahead with
  | cons w ws => exact ⟨_, rfl⟩
  | nil =>
    cases later with
    | nil => exact ⟨[], by simp [rest, lineEnd, token]⟩
    | cons next later => exact ⟨_, by simp [rest, lineEnd, token]; rfl⟩

theorem rest_of_matched {c : Cursor} (h : c.token.matched = true) :
    c.rest = c.token :: c.advance.rest := by
  rcases c with ⟨line, endCol, ahead, later⟩
  cases ahead with
  | cons w ws =>
    have hw : (classify w.chars).isSome = true := (matched_componentToken line w).symm.trans h
    simp [rest, advance, hw, token]
  | nil =>
    cases later with
    | nil => simp [token, Token.marker] at h
    | cons next later =>
      have htotal : line + (later.length + 1) = line + 1 + later.length := by omega
      have hend : lineEnd (line + 1 + later.length) line endCol =
          .marker .endOfLine true line endCol := lineEnd_of_ne (by omega) endCol
      simp [rest, htotal, hend, Line.tokens, advance, token]

/-- The tokens in front of a cursor end with the first that is not matched. -/
theorem tokens_eq_upToUnmatched (c : Cursor) : c.tokens = upToUnmatched c.rest := by
  induction c using tokens_induction with
  | last c h =>
    obtain ⟨ts, hts⟩ := c.exists_rest_eq_cons
    rw [tokens_of_not_matched h, hts, upToUnmatched_cons_of_not_matched h]
  | step c h ih => rw [tokens_of_matched h, rest_of_matched h, upToUnmatched_cons_of_matched h, ih]

theorem rest_ofSource (source : String) :
    (ofSource source).rest =
      ((cutLines (trim source.toList)).zipIdx 1).flatMap
        (lineTokens (cutLines (trim source.toList)).length) := by
  rw [ofSource, sourceLines, lines_eq_cutLines]
  have hline (total : Nat) :
      lineTokens total = fun numbered => Line.tokens total (numbered.map Line.ofChars id) := by
    funext numbered
    simp [lineTokens, Line.tokens, Line.ofChars, components_eq_runs]
  cases hls : cutLines (trim source.toList) with
  | nil => exact absurd ((lines_eq_cutLines _).trans hls) (lines_ne_nil _)
  | cons first later =>
    rw [List.map_cons, ofLines, rest, List.zipIdx_map, List.flatMap_map, hline, List.zipIdx_cons,
      List.flatMap_cons]
    simp [Line.tokens, Nat.add_comm]

end Cursor

/-- The tokens of a source are those of its lines, up to the first that is not matched. -/
theorem tokenize_eq_upToUnmatched (source : String) :
    tokenize source = upToUnmatched (((lines (trim source.toList)).zipIdx 1).flatMap
      (lineTokens (lines (trim source.toList)).length)) := by
  rw [tokenize, Cursor.tokens_eq_upToUnmatched, Cursor.rest_ofSource, lines_eq_cutLines]

/-! ## Places -/

namespace Component

theorem col_lt_of_mem {col : Nat} {cs : List Char} {w : Component}
    (h : w ∈ componentsFrom col cs) : w.col < col + cs.length := by
  induction cs generalizing col with
  | nil => simp [componentsFrom] at h
  | cons c cs ih =>
    have hlater : w ∈ componentsFrom (col + 1) cs → w.col < col + (c :: cs).length := by
      intro hw
      have := ih hw
      rw [List.length_cons]
      omega
    rw [componentsFrom] at h
    split at h
    · exact hlater h
    · obtain ⟨chars, tail, heq, htail⟩ := exists_consChar_eq col c (componentsFrom (col + 1) cs)
      rw [heq] at h
      rcases List.mem_cons.1 h with rfl | h
      · simp
      · exact hlater (htail.subset h)

end Component

/-- The token stands in front of the other one. -/
def Token.Precedes (t u : Token) : Prop :=
  t.line < u.line ∨ t.line = u.line ∧ t.col < u.col

@[simp] theorem Cursor.line_componentToken (line : Nat) (w : Component) :
    (componentToken line w).line = line := by
  unfold componentToken
  split <;> rfl

@[simp] theorem Cursor.col_componentToken (line : Nat) (w : Component) :
    (componentToken line w).col = w.col := by
  unfold componentToken
  split <;> rfl

@[simp] theorem line_lineEnd (total line col : Nat) : (lineEnd total line col).line = line := by
  unfold lineEnd
  split <;> rfl

@[simp] theorem col_lineEnd (total line col : Nat) : (lineEnd total line col).col = col := by
  unfold lineEnd
  split <;> rfl

theorem line_of_mem_lineTokens {total : Nat} {numbered : List Char × Nat} {t : Token}
    (h : t ∈ lineTokens total numbered) : t.line = numbered.2 := by
  rcases List.mem_append.1 h with h | h
  · obtain ⟨w, -, rfl⟩ := List.mem_map.1 h
    simp
  · obtain rfl := List.mem_singleton.1 h
    simp

theorem pairwise_lineTokens (total : Nat) (numbered : List Char × Nat) :
    (lineTokens total numbered).Pairwise Token.Precedes := by
  rw [lineTokens, ← components_eq_runs, List.pairwise_append, List.pairwise_map]
  refine ⟨?_, List.pairwise_singleton _ _, fun t ht u hu => ?_⟩
  · exact (Component.pairwise_col 1 numbered.1).imp fun h => .inr ⟨by simp, by simpa using h⟩
  · obtain ⟨w, hw, rfl⟩ := List.mem_map.1 ht
    obtain rfl := List.mem_singleton.1 hu
    have hcol : w.col < 1 + numbered.1.length := Component.col_lt_of_mem hw
    exact .inr ⟨by simp, by simp; omega⟩

/-- Every token of a source stands in front of those behind it. -/
theorem pairwise_reading (source : String) : (reading source).Pairwise Token.Precedes := by
  refine List.Pairwise.sublist (upToUnmatched_sublist _) (List.pairwise_flatMap.2 ⟨?_, ?_⟩)
  · exact fun numbered _ => pairwise_lineTokens _ numbered
  · have hnumbers : (((cutLines (trim source.toList)).zipIdx 1).map Prod.snd).Pairwise (· < ·) := by
      rw [List.zipIdx_map_snd]
      exact List.pairwise_lt_range' 1
    refine (List.pairwise_map.1 hnumbers).imp fun hlt t ht u hu => .inl ?_
    rwa [line_of_mem_lineTokens ht, line_of_mem_lineTokens hu]

/-! ## Raw texts -/

theorem filter_dropWhile_isBlank (cs : List Char) :
    (cs.dropWhile isBlank).filter (fun c => !isBlank c) = cs.filter (fun c => !isBlank c) := by
  induction cs with
  | nil => rfl
  | cons c cs ih =>
    rw [List.dropWhile_cons]
    split
    · next hc => rw [ih, List.filter_cons_of_neg (by simpa using hc)]
    · rfl

theorem filter_trim (cs : List Char) :
    (trim cs).filter (fun c => !isBlank c) = cs.filter (fun c => !isBlank c) := by
  rw [trim, trimRight, List.filter_reverse, filter_dropWhile_isBlank, List.filter_reverse,
    List.reverse_reverse, trimLeft, filter_dropWhile_isBlank]

theorem flatMap_filter_lines (cs : List Char) :
    (lines cs).flatMap (List.filter fun c => !isBlank c) = cs.filter (fun c => !isBlank c) := by
  fun_induction lines cs with
  | case1 => rfl
  | case2 cs ih => simpa [isBlank] using ih
  | case3 cs ih => simpa [isBlank] using ih
  | case4 c cs hn hr ih =>
    obtain ⟨line, rest, hl⟩ := List.exists_cons_of_ne_nil (lines_ne_nil cs)
    rw [hl] at ih ⊢
    rw [List.flatMap_cons] at ih
    rw [consLine, List.flatMap_cons, List.filter_cons, List.filter_cons, ← ih]
    split <;> rfl

/-- If nothing stops the reading before the end of the source, then the raw texts
    hold the characters of all components. -/
theorem Cursor.flatMap_raw_tokens (c : Cursor)
    (h : c.tokens.getLast?.map Token.kind = some .noMore) :
    c.tokens.flatMap (fun t => t.raw.toList) = c.components.flatMap Component.chars := by
  induction c using tokens_induction with
  | last c hm =>
    rw [tokens_of_not_matched hm] at h ⊢
    rcases c with ⟨line, endCol, ahead, later⟩
    cases ahead with
    | cons w ws =>
      have hw : classify w.chars = none := by
        simpa using (matched_componentToken line w).symm.trans hm
      simp [token, componentToken, hw] at h
    | nil =>
      cases later with
      | nil => rfl
      | cons next rest => simp [token, Token.marker] at hm
  | step c hm ih =>
    have hne : c.advance.tokens ≠ [] := by
      obtain ⟨last, hlast, -⟩ := c.advance.tokens_spec
      simp [hlast]
    rw [tokens_of_matched hm] at h ⊢
    rw [List.getLast?_cons_of_ne_nil hne] at h
    rw [List.flatMap_cons, ih h]
    rcases c with ⟨line, endCol, ahead, later⟩
    cases ahead with
    | cons w ws =>
      obtain ⟨⟨kind, value⟩, hw⟩ :=
        Option.isSome_iff_exists.1 ((matched_componentToken line w).symm.trans hm)
      simp [token, componentToken, advance, hw, components, Component.text]
    | nil =>
      cases later with
      | nil => simp [token, Token.marker] at hm
      | cons next rest => rfl

/-- The components of a source hold its characters that are not blank. -/
theorem flatMap_chars_ofSource (source : String) :
    (Cursor.ofSource source).components.flatMap Component.chars =
      source.toList.filter (fun c => !isBlank c) := by
  rw [Cursor.components_ofSource, sourceLines, List.flatMap_map, List.flatMap_assoc]
  have hline (line : List Char) : (Line.ofChars line).components.flatMap Component.chars =
      line.filter (fun c => !isBlank c) := Component.flatMap_chars_components 1 line
  simp only [hline]
  exact (flatMap_filter_lines _).trans (filter_trim _)

/-! ## The cursor and the reading -/

/-- The cursor gives the tokens that are read off the lines of a source. If all
    components fit some shape, then the raw texts of the tokens make up the source
    without its blank characters. The tokens stand behind one another. -/
theorem tokenize_eq_reading (source : String) :
    tokenize source = reading source ∧
    (∀ line, (runs line).Pairwise (fun w v => w.col < v.col) ∧
      ∀ w, w ∈ runs line ↔ w.Maximal 1 line) ∧
    ((tokenize source).getLast?.map Token.kind = some .noMore →
      (tokenize source).flatMap (fun t => t.raw.toList) =
        source.toList.filter (fun c => !isBlank c)) ∧
    (tokenize source).Pairwise Token.Precedes := by
  have hreading : tokenize source = reading source := by
    rw [tokenize, Cursor.tokens_eq_upToUnmatched, Cursor.rest_ofSource, reading]
  have hruns (line : List Char) : (runs line).Pairwise (fun w v => w.col < v.col) ∧
      ∀ w, w ∈ runs line ↔ w.Maximal 1 line := by
    rw [← components_eq_runs]
    exact ⟨Component.pairwise_col 1 line, fun w => Component.mem_componentsFrom_iff⟩
  refine ⟨hreading, hruns, fun hclean => ?_, hreading ▸ pairwise_reading source⟩
  exact ((Cursor.ofSource source).flatMap_raw_tokens hclean).trans (flatMap_chars_ofSource source)

/-- The raw texts and the places of two lines with blank text on either side, the second
    one indented. Places are counted from the first character that is not blank. -/
theorem raws_of_indented_line :
    (tokenize " \n\tfd 10\r\n  rt \n").getLast?.map Token.kind = some .noMore ∧
      (tokenize " \n\tfd 10\r\n  rt \n").flatMap (fun t => t.raw.toList) = "fd10rt".toList ∧
      (tokenize " \n\tfd 10\r\n  rt \n").map (fun t => (t.line, t.col)) =
        [(1, 1), (1, 4), (1, 6), (2, 3), (2, 5)] := by
  obtain ⟨hreading, -, hraws, -⟩ := tokenize_eq_reading " \n\tfd 10\r\n  rt \n"
  have hclean : (tokenize " \n\tfd 10\r\n  rt \n").getLast?.map Token.kind = some .noMore := by
    rw [hreading]
    decide
  refine ⟨hclean, (hraws hclean).trans (by decide), ?_⟩
  rw [hreading]
  decide

end LogoSyntax

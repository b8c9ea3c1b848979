-- SUMMARY: The markers of line ends and of the end of a source: which line they close and in which column.
import Mathlib
import LogoSyntax.Proofs.Token.Alone

/-!
# Markers

The tokens of a source hold one marker for the end of each line, the last of which marks
the end of the source. So the number of line ends in front of a marker tells which line it
closes (`exists_line_of_marker`). The marker stands just past the last character of that
line, blank or not.

For the end of the source this is just past the last component, since the ends of a source
are trimmed. For the end of a line it is so exactly if the line has no blank character at
its end (`marker_col_iff`).
-/

namespace LogoSyntax

open Text

/-! ## Ends of lines -/

namespace Text

/-- The column just past the last component of a line, if it has one. -/
def lastEndCol? (line : List Char) : Option Nat :=
  (components line).getLast?.map Component.endCol

theorem IsWord.reverse {w : List Char} (hw : IsWord w) : IsWord w.reverse :=
  ⟨by simpa using hw.1, by simpa using hw.2⟩

/-- A text that ends in no blank character ends in a word. -/
theorem exists_last_word {c : Char} (hc : isBlank c = false) (front : List Char) :
    ∃ before w, front ++ [c] = before ++ w ∧ IsWordBetween before w [] := by
  obtain ⟨w, behind, hfront, hw⟩ := exists_first_word hc front.reverse
  refine ⟨behind.reverse, (c :: w).reverse, ?_, hw.isWord.reverse, fun d hd => ?_, by simp⟩
  · simpa using congrArg List.reverse hfront
  · exact hw.blank_behind d (by rwa [List.getLast?_reverse] at hd)

/-- The last component of a text that ends in no blank character reaches to its end. -/
theorem lastEndCol?_of_not_blank {c : Char} (hc : isBlank c = false) (front : List Char) :
    lastEndCol? (front ++ [c]) = some ((front ++ [c]).length + 1) := by
  obtain ⟨before, w, hfront, hw⟩ := exists_last_word hc front
  have hcomponents := componentsFrom_around_word 1 hw
  rw [List.append_nil, ← hfront] at hcomponents
  have hlast : (components (front ++ [c])).getLast? = some ⟨1 + before.length, w⟩ := by
    rw [components, hcomponents]
    exact List.getLast?_concat
  have hend : (⟨1 + before.length, w⟩ : Component).endCol = (before ++ w).length + 1 := by
    simp only [Component.endCol, List.length_append]
    omega
  rw [lastEndCol?, hlast, Option.map_some, hend, hfront]

/-- Blank characters at the end of a line are part of no component. -/
theorem components_trimRight (line : List Char) : components (trimRight line) = components line := by
  obtain ⟨trail, hline, hblank⟩ := exists_eq_trimRight_append line
  have hhead : ∀ c, trail.head? = some c → isBlank c = true := fun c hc =>
    isBlank_of_mem hblank (List.mem_of_head? hc)
  conv_rhs => rw [hline, components, componentsFrom_append 1 (.inr hhead),
    componentsFrom_of_blank hblank, List.append_nil]
  rfl

theorem lastEndCol?_eq {line : List Char} (h : components line ≠ []) :
    lastEndCol? line = some ((trimRight line).length + 1) := by
  have htrim : trimRight line ≠ [] := by
    intro hnil
    rw [← components_trimRight, hnil] at h
    exact h rfl
  obtain ⟨front, c, hlast⟩ := exists_append_singleton htrim
  have hend := lastEndCol?_of_not_blank (trimRight_last hlast) front
  rwa [← hlast, lastEndCol?, components_trimRight] at hend

/-- The last component of a line reaches to its end if no blank character stands there. -/
theorem lastEndCol?_eq_end_iff {line : List Char} (h : components line ≠ []) :
    lastEndCol? line = some (line.length + 1) ↔ trimRight line = line := by
  rw [lastEndCol?_eq h]
  obtain ⟨trail, hline, -⟩ := exists_eq_trimRight_append line
  have hprefix : trimRight line <+: line := ⟨trail, hline.symm⟩
  constructor
  · intro hcol
    exact hprefix.eq_of_length (Nat.succ.inj (Option.some.inj hcol))
  · intro htrim
    rw [htrim]

end Text

/-! ## The line of a marker -/

/-- The number of line ends among some tokens. -/
def Token.lineEnds (ts : List Token) : Nat :=
  ts.countP (·.kind = .endOfLine)

theorem Token.lineEnds_words (line : Nat) (cs : List Char) :
    Token.lineEnds ((runs cs).map (Cursor.componentToken line)) = 0 :=
  List.countP_eq_zero.2 fun t ht => by simpa using (kind_of_mem_words ht).2.2

/-- The end of a line that is not the last of all is one line end. -/
theorem Token.lineEnds_behind_line {total line : Nat} (h : line ≠ total) (cs : List Char)
    (col : Nat) (later : List Token) :
    Token.lineEnds ((runs cs).map (Cursor.componentToken line) ++
      lineEnd total line col :: later) = Token.lineEnds later + 1 := by
  have hwords := Token.lineEnds_words line cs
  rw [Token.lineEnds] at hwords ⊢
  rw [List.countP_append, hwords, lineEnd_of_ne h, List.countP_cons_of_pos (by simp [Token.marker]),
    Nat.zero_add]
  rfl

theorem kind_lineEnd_eq_noMore_iff {total line col : Nat} :
    (lineEnd total line col).kind = .noMore ↔ line = total := by
  unfold lineEnd
  split <;> simp_all [Token.marker]

/-- An element that stands in none of the places before another one is that one, or
    stands behind it. -/
theorem append_cons_cases {α : Type} {as bs us vs : List α} {a t : α}
    (h : as ++ a :: bs = us ++ t :: vs) (ht : t ∉ as) :
    (us = as ∧ t = a) ∨ ∃ later, us = as ++ a :: later ∧ bs = later ++ t :: vs := by
  rcases List.append_eq_append_iff.1 h with ⟨later, rfl, hlater⟩ | ⟨later, rfl, hlater⟩
  · cases later with
    | nil => exact .inl ⟨List.append_nil as, (List.cons.inj hlater).1.symm⟩
    | cons b later =>
      obtain ⟨rfl, hbs⟩ := List.cons.inj hlater
      exact .inr ⟨later, rfl, hbs⟩
  · cases later with
    | nil => exact .inl ⟨(List.append_nil us).symm, (List.cons.inj hlater).1⟩
    | cons b later =>
      obtain ⟨rfl, -⟩ := List.cons.inj hlater
      simp at ht

/-- A marker closes the line that has as many lines in front of it as line ends are in
    front of the marker. -/
theorem exists_line_of_marker {total n : Nat} {ls : List (List Char)} {us more : List Token}
    {t : Token} (h : (ls.zipIdx n).flatMap (lineTokens total) = us ++ t :: more)
    (hraw : t.raw = "") (htotal : n + ls.length ≤ total + 1) :
    ∃ line, ls[Token.lineEnds us]? = some line ∧
      t = lineEnd total (n + Token.lineEnds us) (line.length + 1) := by
  induction ls generalizing n us with
  | nil => simp at h
  | cons line ls ih =>
    have hwords : t ∉ (runs line).map (Cursor.componentToken n) := fun ht =>
      (kind_of_mem_words ht).1 hraw
    rw [List.zipIdx_cons, List.flatMap_cons, lineTokens, List.append_assoc,
      List.singleton_append] at h
    rcases append_cons_cases h hwords with ⟨rfl, rfl⟩ | ⟨later, rfl, hlater⟩
    · exact ⟨line, by simp [Token.lineEnds_words]⟩
    · -- Another marker is behind that of the first line, so the first line is not the last.
      have hne : ls ≠ [] := by
        rintro rfl
        simp at hlater
      have hpos := List.length_pos_iff.2 hne
      rw [List.length_cons] at htotal
      have hends := Token.lineEnds_behind_line (by omega : n ≠ total) line (line.length + 1) later
      obtain ⟨found, hfound, rfl⟩ := ih hlater (by omega)
      refine ⟨found, ?_, ?_⟩
      · rw [hends, List.getElem?_cons_succ, hfound]
      · rw [hends, Nat.add_assoc, Nat.add_comm 1]

/-! ## Columns of markers -/

/-- The last line of a source that is not blank ends in no blank character. -/
theorem trimRight_last_line {source : String} (h : isBlankText source.toList = false)
    {line : List Char} (hline : (lines (trim source.toList)).getLast? = some line) :
    components line ≠ [] ∧ trimRight line = line := by
  have hne : trim source.toList ≠ [] := by
    intro hnil
    simp [isBlankText_of_trim_eq_nil hnil] at h
  obtain ⟨front, c, hlast⟩ := exists_append_singleton hne
  have hc := trim_last hlast
  obtain ⟨ls, found, hlines⟩ := last_lines front hc
  rw [hlast, hlines, List.getLast?_concat] at hline
  obtain rfl := Option.some.inj hline
  refine ⟨components_ne_nil (by simp) hc, ?_⟩
  rw [trimRight_eq_rdropWhile]
  exact List.rdropWhile_concat_neg _ _ _ (by simp [hc])

/-- The marker behind as many line ends as there are lines in front of some line closes
    that line: it has the number of the line, and stands just past its last character.

    The end of a source that is not blank stands just past the last component of the last
    line. The end of any other line with a component does so exactly if the line has no
    blank character at its end. -/
theorem marker_col_iff {source : String} {us vs : List Token} {t : Token}
    (h : tokenize source = us ++ t :: vs) (ht : t.kind = .endOfLine ∨ t.kind = .noMore) :
    ∃ line, (lines (trim source.toList))[Token.lineEnds us]? = some line ∧
      t.line = Token.lineEnds us + 1 ∧ t.col = line.length + 1 ∧
      (components line ≠ [] → (lastEndCol? line = some t.col ↔ trimRight line = line)) ∧
      (t.kind = .noMore → t.line = (lines (trim source.toList)).length ∧
        (isBlankText source.toList = false → lastEndCol? line = some t.col)) := by
  have hmem : t ∈ tokenize source := by simp [h]
  have hraw : t.raw = "" := (regular_of_mem_tokenize hmem).raw.2 ht.symm
  rw [tokenize_eq_upToUnmatched] at h
  obtain ⟨-, more, hmore⟩ := matched_of_upToUnmatched h
  obtain ⟨line, hline, rfl⟩ := exists_line_of_marker hmore hraw (Nat.add_comm ..).le
  refine ⟨line, hline, ?_, col_lineEnd .., fun hne => ?_, fun hk => ?_⟩
  · rw [line_lineEnd, Nat.add_comm]
  · rw [col_lineEnd]
    exact lastEndCol?_eq_end_iff hne
  · have hlast := kind_lineEnd_eq_noMore_iff.1 hk
    refine ⟨by rw [line_lineEnd, hlast], fun hblank => ?_⟩
    have hlength : (lines (trim source.toList)).length - 1 = Token.lineEnds us := by omega
    rw [← hlength, ← List.getLast?_eq_getElem?] at hline
    obtain ⟨hne, htrim⟩ := trimRight_last_line hblank hline
    rw [col_lineEnd]
    exact (lastEndCol?_eq_end_iff hne).2 htrim

/-- The end of a line with a tab between its words and none behind them. -/
theorem marker_col_of_tabbed_line :
    tokenize "fd\t10\nbk" = [⟨.procedure, "fd", some "fd", true, 1, 1⟩,
        ⟨.number, "10", some "10", true, 1, 4⟩] ++ .marker .endOfLine true 1 6 ::
        [⟨.procedure, "bk", some "bk", true, 2, 1⟩, .marker .noMore false 2 3] ∧
      lastEndCol? "fd\t10".toList = some 6 := by
  have htokens : tokenize "fd\t10\nbk" = [⟨.procedure, "fd", some "fd", true, 1, 1⟩,
      ⟨.number, "10", some "10", true, 1, 4⟩] ++ .marker .endOfLine true 1 6 ::
      [⟨.procedure, "bk", some "bk", true, 2, 1⟩, .marker .noMore false 2 3] := by
    cbv
  obtain ⟨line, hline, -, -, hcol, -⟩ := marker_col_iff htokens (.inl rfl)
  obtain rfl : "fd\t10".toList = line := Option.some.inj hline
  exact ⟨htokens, (hcol (by decide)).2 (by decide)⟩

/-- Behind a line that ends in a space, the marker stands one column past the space and
    not just past the component. -/
theorem not_marker_col_of_spaced_line :
    ∃ us t vs line, tokenize "a \nb" = us ++ t :: vs ∧ t.kind = .endOfLine ∧
      (lines (trim "a \nb".toList))[Token.lineEnds us]? = some line ∧ components line ≠ [] ∧
      lastEndCol? line ≠ some t.col := by
  have htokens : tokenize "a \nb" = [⟨.procedure, "a", some "a", true, 1, 1⟩] ++
      .marker .endOfLine true 1 3 ::
      [⟨.procedure, "b", some "b", true, 2, 1⟩, .marker .noMore false 2 2] := by
    cbv
  exact ⟨_, _, _, ['a', ' '], htokens, rfl, by decide, by decide, by decide⟩

end LogoSyntax

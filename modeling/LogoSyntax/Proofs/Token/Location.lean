-- SUMMARY: Where in a source its tokens and its syntax error point.
import Mathlib
import LogoSyntax.Proofs.Token.Place

/-!
# Location

A place is of use if the text of a token is found there. It is found there in the
source without the blank text in front of its first word, which is dropped before the
lines are numbered, and not always in the source itself
(`located_behind_blank_text`).
-/

namespace LogoSyntax

open Text

/-! ## Tokens and errors at words -/

theorem mem_significant_of_raw {source : String} {t : Token} (ht : t ∈ tokenize source)
    (hraw : t.raw ≠ "") : t ∈ Token.significant (tokenize source) := by
  have hall := ht
  rw [tokenize_eq_upToUnmatched] at hall
  obtain ⟨line, -, hline⟩ := List.mem_flatMap.1 ((upToUnmatched_sublist _).subset hall)
  have hk : t.kind ≠ .endOfLine := fun hk => hraw (endOfLine_of_mem_lineTokens hline hk).2
  exact List.mem_filter.2 ⟨ht, by simpa using hk⟩

theorem exists_word_of_mem_significant {source : String} {t : Token}
    (ht : t ∈ Token.significant (tokenize source)) (hraw : t.raw ≠ "") : ∃ before w behind,
      trim source.toList = before ++ w ++ behind ∧ IsWord w ∧ t = Token.behind before w := by
  obtain ⟨us, rest, hus⟩ := List.append_of_mem ht
  obtain ⟨before, w, behind, hcs, hw, -, hword, -⟩ := exists_word_of_significant hus hraw
  exact ⟨before, w, behind, hcs, hw.isWord, hword⟩

/-- Without the blank text in front of it, a source has its tokens where they say. -/
theorem pointsAt_of_mem_significant {source : String} {t : Token}
    (ht : t ∈ Token.significant (tokenize source)) (hraw : t.raw ≠ "") :
    PointsAt (trimLeft source.toList) t.line t.col t.raw := by
  obtain ⟨before, w, behind, hcs, hw, rfl⟩ := exists_word_of_mem_significant ht hraw
  obtain ⟨trail, htrail, -⟩ := exists_eq_trimRight_append (trimLeft source.toList)
  rw [htrail, show trimRight (trimLeft source.toList) = _ from hcs, List.append_assoc]
  simpa [Token.behind, Component.text] using pointsAt_place hw before (behind ++ trail)

/-- The error of a source is at one of its significant tokens. -/
theorem exists_token_of_error {source : String} {e : SyntaxError}
    (h : parse source = .error (.syntaxError e)) :
    ∃ t ∈ Token.significant (tokenize source),
      e.found = t.kind ∧ e.raw = t.raw ∧ e.line = t.line ∧ e.col = t.col := by
  rcases parse_outcome source with ⟨_, _, _, _, _, _, hok⟩ |
    ⟨us, t, rest, production, expected, hus, -, -, herror⟩
  · simp [hok] at h
  · obtain rfl : SyntaxError.ofToken production expected t = e := by simpa [herror] using h
    exact ⟨t, by simp [hus], rfl, rfl, rfl, rfl⟩

/-! ## Locations -/

/-- In a text, the tokens of a source with a raw text, and its syntax error if that has
    one, stand where they say. -/
def Located (cs : List Char) (source : String) : Prop :=
  (∀ t ∈ tokenize source, t.raw ≠ "" → PointsAt cs t.line t.col t.raw) ∧
    ∀ e, parse source = .error (.syntaxError e) → e.raw ≠ "" → PointsAt cs e.line e.col e.raw

theorem located_of_significant {cs : List Char} {source : String}
    (h : ∀ t ∈ Token.significant (tokenize source), t.raw ≠ "" → PointsAt cs t.line t.col t.raw) :
    Located cs source := by
  refine ⟨fun t ht hraw => h t (mem_significant_of_raw ht hraw) hraw, fun e he hraw => ?_⟩
  obtain ⟨t, ht, -, heraw, heline, hecol⟩ := exists_token_of_error he
  rw [heraw] at hraw
  rw [heraw, heline, hecol]
  exact h t ht hraw

/-- A source that is not blank has a token at its first word, in the first line and column. -/
theorem exists_first_token {source : String} {c : Char} {rest : List Char}
    (h : trim source.toList = c :: rest) :
    ∃ t ∈ tokenize source, t.line = 1 ∧ t.col = 1 ∧ t.raw.toList.head? = some c := by
  obtain ⟨w, behind, hrest, hw⟩ := exists_first_word (trim_head h) rest
  have hnone : ∀ u ∈ Token.ofText [], u.matched = true := by
    intro u hu
    cases hu
  have hcs : trim source.toList = [] ++ c :: w ++ behind := h.trans hrest
  obtain ⟨ts, hts⟩ := significant_around_word hcs hw hnone
  refine ⟨_, (List.mem_filter.1 (hts ▸ List.mem_append_right _ List.mem_cons_self)).1, ?_⟩
  simp [Token.behind, Component.text]

/-- The first word is always said to stand in the first line and column. If it does, then
    the source begins with it. -/
theorem trimLeft_eq_self_or_blank {source : String} (h : Located source.toList source) :
    trimLeft source.toList = source.toList ∨ isBlankText source.toList = true := by
  cases htrim : trim source.toList with
  | nil => exact .inr (isBlankText_of_trim_eq_nil htrim)
  | cons c rest =>
    obtain ⟨t, ht, hline, hcol, hfirst⟩ := exists_first_token htrim
    have hraw : t.raw ≠ "" := by
      intro hnil
      simp [hnil] at hfirst
    have hpoints := h.1 t ht hraw
    rw [hline, hcol] at hpoints
    obtain ⟨behind, hbehind⟩ := hpoints.prefix_of_first
    left
    refine trimLeft_eq_self fun d ds hds => ?_
    rw [← hbehind] at hds
    have hhead := congrArg List.head? hds
    rw [List.head?_append, hfirst] at hhead
    obtain rfl : c = d := by simpa using hhead
    exact trim_head htrim

/-- Places are counted from the first character of a source that is not blank: from
    there, every token and every error stands where it says. From the beginning of the
    source, they do so exactly if no blank text is in front of the first word. -/
theorem located_behind_blank_text (source : String) :
    Located (trimLeft source.toList) source ∧
      (Located source.toList source ↔
        trimLeft source.toList = source.toList ∨ isBlankText source.toList = true) := by
  have hplaces : Located (trimLeft source.toList) source :=
    located_of_significant fun t ht hraw => pointsAt_of_mem_significant ht hraw
  refine ⟨hplaces, trimLeft_eq_self_or_blank, ?_⟩
  rintro (htrim | hblank)
  · rwa [htrim] at hplaces
  · refine located_of_significant fun t ht hraw => ?_
    obtain ⟨before, w, behind, hcs, hw, -⟩ := exists_word_of_mem_significant ht hraw
    obtain ⟨c, ws, rfl⟩ := List.exists_cons_of_ne_nil hw.1
    have hmem : c ∈ trim source.toList := by simp [hcs]
    have hc := isBlank_of_mem hblank (mem_of_mem_trim hmem)
    simp [hw.2 c List.mem_cons_self] at hc

/-- Behind a line feed, a bracket is found in the first line, which is empty. -/
theorem not_located_behind_line_feed :
    (∃ t ∈ tokenize "\n]", t.raw ≠ "" ∧ ¬ PointsAt "\n]".toList t.line t.col t.raw) ∧
    ∃ e, parse "\n]" = .error (.syntaxError e) ∧ e.raw ≠ "" ∧
      ¬ PointsAt "\n]".toList e.line e.col e.raw := by
  have hraw : ¬ PointsAt "\n]".toList 1 1 "]" := by
    intro h
    have hprefix := h.prefix_of_first
    revert hprefix
    decide
  have htokens : tokenize "\n]" =
      [⟨.right .bracket, "]", none, true, 1, 1⟩, .marker .noMore false 1 2] := by
    cbv
  have herror : parse "\n]" =
      .error (.syntaxError ⟨"block", .production "block", .right .bracket, "]", 1, 1⟩) := by
    cbv
  refine ⟨⟨⟨.right .bracket, "]", none, true, 1, 1⟩, by simp [htokens], by decide, hraw⟩, ?_⟩
  exact ⟨_, herror, by decide, hraw⟩

end LogoSyntax

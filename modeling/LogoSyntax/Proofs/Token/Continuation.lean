-- SUMMARY: The tokens of a source that goes on behind a line break with the lines of another one.
import Mathlib
import LogoSyntax.Proofs.Token.Alone

/-!
# Sources behind one another

Two sources without blank ends, with a line feed between them, have the lines of the first
and those of the second (`lines_of_both`). The lines of the second have greater
numbers, and the last line of the first is no longer the last of all. So its end marks the
end of a line instead of the end of the source (`exists_tokens_up_to_end`), and the tokens
of the second stand further down (`flatMap_lineTokens_add`), unless a component of the
first that no shape fits stops the reading before (`matched_or_stops`).
-/

namespace LogoSyntax

open Text

/-! ## Lines of both sources -/

namespace Text

theorem length_lines (cs : List Char) : (lines cs).length = cs.count '\n' + 1 := by
  fun_induction lines cs with
  | case1 => rfl
  | case2 cs ih => simp [ih]
  | case3 cs ih => simp [ih]
  | case4 c cs hn _ ih =>
    obtain ⟨line, rest, hl⟩ := List.exists_cons_of_ne_nil (lines_ne_nil cs)
    rw [List.count_cons_of_ne hn, ← ih, hl]
    rfl

/-- What stands between two texts without blank ends is not trimmed away. -/
theorem trim_append_of_trim {as bs : List Char} (has : as ≠ []) (hbs : bs ≠ [])
    (hfront : trim as = as) (hback : trim bs = bs) (cs : List Char) :
    trim (as ++ cs ++ bs) = as ++ cs ++ bs := by
  refine trim_eq_self (fun c rest h => ?_) fun front c h => ?_
  · obtain ⟨d, ds, rfl⟩ := List.exists_cons_of_ne_nil has
    rw [List.append_assoc, List.cons_append] at h
    exact (List.cons.inj h).1 ▸ trim_head hfront
  · obtain ⟨ds, d, rfl⟩ := exists_append_singleton hbs
    rw [← List.append_assoc] at h
    exact List.singleton_inj.1 (List.append_inj' h rfl).2 ▸ trim_last hback

/-- Two sources with a line break between them have the lines of both. -/
theorem lines_of_both {s t : String} (hs : s ≠ "") (ht : t ≠ "")
    (hstrim : trim s.toList = s.toList) (httrim : trim t.toList = t.toList) :
    lines (trim (s ++ "\n" ++ t).toList) =
      lines (trim s.toList) ++ lines (trim t.toList) := by
  have htext : (s ++ "\n" ++ t).toList = s.toList ++ ['\n'] ++ t.toList := by simp
  have hlast : s.toList.getLast? ≠ some '\r' := by
    intro hr
    obtain ⟨front, hfront⟩ := List.getLast?_eq_some_iff.1 hr
    have hblank := trim_last (hstrim.trans hfront)
    simp [isBlank] at hblank
  have htrim : trim (s.toList ++ ['\n'] ++ t.toList) = s.toList ++ ['\n'] ++ t.toList :=
    trim_append_of_trim (by simpa using hs) (by simpa using ht) hstrim httrim _
  rw [htext, htrim, List.append_assoc, List.singleton_append, lines_append_newline hlast, hstrim,
    httrim]

end Text

/-! ## Tokens further down -/

/-- The token, some lines further down. -/
def Token.below (n : Nat) (t : Token) : Token :=
  t.movedTo (t.line + n) t.col

theorem Cursor.componentToken_add (line n : Nat) (w : Component) :
    componentToken (line + n) w = (componentToken line w).below n := by
  rw [Token.below, movedTo_componentToken, line_componentToken, col_componentToken]

theorem lineEnd_add (total line n col : Nat) :
    lineEnd (total + n) (line + n) col = (lineEnd total line col).below n := by
  unfold lineEnd
  simp only [Nat.add_right_cancel_iff]
  split <;> rfl

theorem lineTokens_add (total n line : Nat) (cs : List Char) :
    lineTokens (total + n) (cs, line + n) =
      (lineTokens total (cs, line)).map (Token.below n) := by
  rw [lineTokens, lineTokens, List.map_append, List.map_map]
  refine congrArg₂ (· ++ ·) (List.map_congr_left fun w _ => ?_) ?_
  · exact Cursor.componentToken_add line n w
  · exact congrArg (fun t => [t]) (lineEnd_add total line n _)

/-- Lines with greater numbers have the same tokens, further down. -/
theorem flatMap_lineTokens_add (total n line : Nat) (ls : List (List Char)) :
    (ls.zipIdx (line + n)).flatMap (lineTokens (total + n)) =
      ((ls.zipIdx line).flatMap (lineTokens total)).map (Token.below n) := by
  induction ls generalizing line with
  | nil => rfl
  | cons cs ls ih =>
    rw [List.zipIdx_cons, List.zipIdx_cons, List.flatMap_cons, List.flatMap_cons,
      List.map_append, lineTokens_add, Nat.add_right_comm, ih]

/-! ## Tokens up to an end -/

theorem upToUnmatched_map_below (n : Nat) (ts : List Token) :
    upToUnmatched (ts.map (.below n)) = (upToUnmatched ts).map (.below n) := by
  have hmatched : (fun t : Token => t.matched) ∘ Token.below n = fun t => t.matched := rfl
  rw [upToUnmatched, List.takeWhile_map, List.dropWhile_map, hmatched, List.head?_map,
    upToUnmatched, List.map_append]
  cases (ts.dropWhile (·.matched)).head? <;> rfl

/-- Some tokens are all matched, or the reading stops at one of them, whatever stands
    behind them. -/
theorem matched_or_stops (us : List Token) : (∀ u ∈ us, u.matched = true) ∨
    ∃ front, ∃ last ∈ us, last.matched = false ∧
      ∀ ts, upToUnmatched (us ++ ts) = front ++ [last] := by
  induction us with
  | nil => exact .inl (by simp)
  | cons u us ih =>
    cases hu : u.matched with
    | false =>
      exact .inr ⟨[], u, List.mem_cons_self, hu, fun ts => upToUnmatched_cons_of_not_matched hu _⟩
    | true =>
      rcases ih with hus | ⟨front, last, hlast, hm, hstop⟩
      · exact .inl (List.forall_mem_cons.2 ⟨hu, hus⟩)
      · refine .inr ⟨u :: front, last, List.mem_cons_of_mem u hlast, hm, fun ts => ?_⟩
        rw [List.cons_append, upToUnmatched_cons_of_matched hu, hstop, List.cons_append]

/-- Of the tokens of some lines, the end of the last line alone depends on how many lines
    there are in all. -/
theorem exists_tokens_up_to_end (line : Nat) (first : List Char) (rest : List (List Char)) :
    ∃ body col, (∀ u ∈ body, u.kind ≠ .noMore) ∧ ∀ total, line + rest.length ≤ total →
      ((first :: rest).zipIdx line).flatMap (lineTokens total) =
        body ++ [lineEnd total (line + rest.length) col] := by
  induction rest generalizing line first with
  | nil =>
    refine ⟨(runs first).map (Cursor.componentToken line), first.length + 1,
      fun u hu => (kind_of_mem_words hu).2.1, fun total _ => ?_⟩
    simp [lineTokens]
  | cons next rest ih =>
    obtain ⟨body, col, hkinds, hbody⟩ := ih (line + 1) next
    refine ⟨(runs first).map (Cursor.componentToken line) ++
      .marker .endOfLine true line (first.length + 1) :: body, col, fun u hu => ?_,
      fun total htotal => ?_⟩
    · rcases List.mem_append.1 hu with hu | hu
      · exact (kind_of_mem_words hu).2.1
      · rcases List.mem_cons.1 hu with rfl | hu
        · simp [Token.marker]
        · exact hkinds u hu
    · rw [List.length_cons] at htotal
      have hend : lineEnd total line (first.length + 1) =
          .marker .endOfLine true line (first.length + 1) := lineEnd_of_ne (by omega) _
      have hnext := hbody total (by omega)
      rw [Nat.add_right_comm, Nat.add_assoc] at hnext
      rw [List.zipIdx_cons, List.flatMap_cons, lineTokens, hend, hnext]
      simp

/-! ## Tokens of both sources -/

/-- Up to the end of the first source, both sources have the tokens of the first. There the
    first source ends, or a line, and the tokens of the second source follow. -/
theorem exists_tokens_of_both {s t : String} (hs : s ≠ "") (ht : t ≠ "")
    (hstrim : trim s.toList = s.toList) (httrim : trim t.toList = t.toList) :
    let n := s.toList.count '\n' + 1
    let ls := lines (trim t.toList)
    ∃ body col, (∀ u ∈ body, u.kind ≠ .noMore) ∧
      tokenize s = upToUnmatched (body ++ [.marker .noMore false n col]) ∧
      tokenize (s ++ "\n" ++ t) = upToUnmatched (body ++ .marker .endOfLine true n col ::
        ((ls.zipIdx 1).flatMap (lineTokens ls.length)).map (.below n)) := by
  intro n ls
  obtain ⟨first, rest, hl⟩ := List.exists_cons_of_ne_nil (lines_ne_nil (trim s.toList))
  obtain ⟨body, col, hkinds, hbody⟩ := exists_tokens_up_to_end 1 first rest
  have hlength : (first :: rest).length = n := by
    rw [← hl, hstrim, length_lines]
  have hn : 1 + rest.length = n := by
    rw [← hlength, List.length_cons, Nat.add_comm]
  rw [hn] at hbody
  refine ⟨body, col, hkinds, ?_, ?_⟩
  · rw [tokenize_eq_upToUnmatched, hl, hlength, hbody n le_rfl, lineEnd, if_pos rfl]
  · have hpos : 0 < ls.length := List.length_pos_iff.2 (lines_ne_nil _)
    have hne : n ≠ ls.length + n := by omega
    rw [tokenize_eq_upToUnmatched, lines_of_both hs ht hstrim httrim, hl, List.zipIdx_append,
      List.flatMap_append, List.length_append, hlength, Nat.add_comm n, flatMap_lineTokens_add,
      hbody _ (Nat.le_add_left n _), lineEnd_of_ne hne, List.append_assoc, List.singleton_append]

/-- Behind a source of which all components fit some shape, and a line break, the tokens
    of another source follow, further down by the number of lines of the first. The end of
    the first source becomes the end of a line in the same place.

    If a component of the first source fits no shape, then nothing behind it is read. -/
theorem tokenize_continued {s t : String} (hs : s ≠ "") (ht : t ≠ "")
    (hstrim : trim s.toList = s.toList) (httrim : trim t.toList = t.toList) :
    ∃ front last, tokenize s = front ++ [last] ∧
      (last.kind = .noMore ∧
          tokenize (s ++ "\n" ++ t) = front ++ .marker .endOfLine true last.line last.col ::
            (tokenize t).map (Token.below (s.toList.count '\n' + 1)) ∨
        last.kind = .notFound ∧ tokenize (s ++ "\n" ++ t) = tokenize s) := by
  obtain ⟨body, col, hkinds, hfirst, hboth⟩ := exists_tokens_of_both hs ht hstrim httrim
  rcases matched_or_stops body with hmatched | ⟨front, last, hlast, hm, hstop⟩
  · rw [upToUnmatched_append hmatched, upToUnmatched_cons_of_not_matched rfl] at hfirst
    refine ⟨body, _, hfirst, .inl ⟨rfl, ?_⟩⟩
    rw [hboth, upToUnmatched_append hmatched, upToUnmatched_cons_of_matched rfl,
      upToUnmatched_map_below, ← tokenize_eq_upToUnmatched]
    rfl
  · have hts := hfirst.trans (hstop _)
    have hmem : last ∈ tokenize s := by simp [hts]
    have hkind := ((regular_of_mem_tokenize hmem).matched.1 hm).resolve_left (hkinds last hlast)
    exact ⟨front, last, hts, .inr ⟨hkind, by rw [hboth, hstop, hts]⟩⟩

/-- Two lines behind two lines, and two lines behind a component that no shape fits. -/
theorem tokenize_continued_by_two_lines :
    tokenize ("fd 10\n[" ++ "\n" ++ "rt\n  90 ]") =
        [⟨.procedure, "fd", some "fd", true, 1, 1⟩, ⟨.number, "10", some "10", true, 1, 4⟩,
          .marker .endOfLine true 1 6, ⟨.left .bracket, "[", none, true, 2, 1⟩] ++
        .marker .endOfLine true 2 2 :: (tokenize "rt\n  90 ]").map (Token.below 2) ∧
      tokenize ("1.2.3 [" ++ "\n" ++ "rt\n  90 ]") = tokenize "1.2.3 [" := by
  have hclean : tokenize "fd 10\n[" =
      [⟨.procedure, "fd", some "fd", true, 1, 1⟩, ⟨.number, "10", some "10", true, 1, 4⟩,
        .marker .endOfLine true 1 6, ⟨.left .bracket, "[", none, true, 2, 1⟩] ++
      [.marker .noMore false 2 2] := by
    cbv
  have hstopped : tokenize "1.2.3 [" = [] ++ [⟨.notFound, "1.2.3", none, false, 1, 1⟩] := by
    cbv
  constructor
  · obtain ⟨front, last, hts, h⟩ := tokenize_continued (s := "fd 10\n[") (t := "rt\n  90 ]")
      (by decide) (by decide) (by decide) (by decide)
    obtain ⟨rfl, hlast⟩ := List.append_inj' (hclean.symm.trans hts) rfl
    obtain rfl := List.singleton_inj.1 hlast
    exact (h.resolve_right (by simp [Token.marker])).2
  · obtain ⟨front, last, hts, h⟩ := tokenize_continued (s := "1.2.3 [") (t := "rt\n  90 ]")
      (by decide) (by decide) (by decide) (by decide)
    obtain ⟨rfl, hlast⟩ := List.append_inj' (hstopped.symm.trans hts) rfl
    obtain rfl := List.singleton_inj.1 hlast
    exact (h.resolve_left (by simp)).2

end LogoSyntax

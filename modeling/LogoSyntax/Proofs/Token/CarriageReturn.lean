-- SUMMARY: Carriage returns in front of the line feeds of a source change neither its tokens nor its program.
import LogoSyntax.Grammar.Block
import LogoSyntax.Proofs.Text.Place

/-!
# Carriage returns

A carriage return directly in front of a line feed belongs to the line break. A carriage
return is also a blank character, so it could be trimmed away with the ends of the source
or be counted as a character of its line. `withReturns` puts carriage returns in front of
some line feeds of a source, and none of the two happens: trimming takes whole line breaks
away (`exists_trim_returnsFrom`), and the lines that are left are the same
(`lines_returnsFrom`). So a cursor finds the same source (`ofSource_withReturns`).
-/

namespace LogoSyntax

open Text

namespace Text

/-- A character at a position, with a carriage return in front of it if it is a line feed
    and the position is chosen. -/
def returned (chosen : Nat → Bool) (p : Char × Nat) : List Char :=
  if p.1 = '\n' ∧ chosen p.2 = true then ['\r', '\n'] else [p.1]

/-- A text with carriage returns in front of the line feeds at the chosen positions. Its
    first character stands at `position`. -/
def returnsFrom (chosen : Nat → Bool) (position : Nat) (cs : List Char) : List Char :=
  (cs.zipIdx position).flatMap (returned chosen)

variable (chosen : Nat → Bool)

theorem returned_of_ne {c : Char} (hc : c ≠ '\n') (position : Nat) :
    returned chosen (c, position) = [c] :=
  if_neg fun h => hc h.1

theorem returned_newline_cases (position : Nat) :
    returned chosen ('\n', position) = ['\r', '\n'] ∨
      returned chosen ('\n', position) = ['\n'] := by
  unfold returned
  split
  · exact .inl rfl
  · exact .inr rfl

theorem returnsFrom_cons (position : Nat) (c : Char) (cs : List Char) :
    returnsFrom chosen position (c :: cs) =
      returned chosen (c, position) ++ returnsFrom chosen (position + 1) cs :=
  rfl

theorem returnsFrom_append (position : Nat) (as bs : List Char) :
    returnsFrom chosen position (as ++ bs) =
      returnsFrom chosen position as ++ returnsFrom chosen (position + as.length) bs := by
  rw [returnsFrom, List.zipIdx_append, List.flatMap_append]
  rfl

theorem isBlankText_returnsFrom {cs : List Char} (h : isBlankText cs = true) (position : Nat) :
    isBlankText (returnsFrom chosen position cs) = true := by
  refine List.all_eq_true.2 fun d hd => ?_
  obtain ⟨⟨c, i⟩, hmem, hd⟩ := List.mem_flatMap.1 hd
  have hc : isBlank c = true := isBlank_of_mem h (List.fst_mem_of_mem_zipIdx hmem)
  unfold returned at hd
  split at hd
  · rcases List.mem_pair.1 hd with rfl | rfl <;> rfl
  · rwa [List.mem_singleton.1 hd]

/-! ## Trimming -/

/-- A text without blank ends has none with carriage returns in it. -/
theorem trim_returnsFrom_of_trim (position : Nat) (cs : List Char) :
    trim (returnsFrom chosen position (trim cs)) = returnsFrom chosen position (trim cs) := by
  refine trim_eq_self (fun d ds hds => ?_) fun ds d hds => ?_
  · cases hcs : trim cs with
    | nil =>
      rw [hcs] at hds
      cases hds
    | cons c rest =>
      have hc := trim_head hcs
      rw [hcs, returnsFrom_cons, returned_of_ne chosen (ne_newline_of_not_blank hc)] at hds
      exact (List.cons.inj hds).1 ▸ hc
  · rcases List.eq_nil_or_concat' (trim cs) with hcs | ⟨front, c, hcs⟩
    · rw [hcs] at hds
      simp [returnsFrom] at hds
    · have hc := trim_last hcs
      rw [hcs, returnsFrom_append, returnsFrom_cons,
        returned_of_ne chosen (ne_newline_of_not_blank hc)] at hds
      have hlast := (List.append_inj' hds rfl).2
      exact List.singleton_inj.1 hlast ▸ hc

/-- Trimming takes no carriage return away without the line feed behind it. -/
theorem exists_trim_returnsFrom (position : Nat) (cs : List Char) :
    ∃ position', trim (returnsFrom chosen position cs) =
      returnsFrom chosen position' (trim cs) := by
  obtain ⟨lead, trail, hcs, hlead, htrail⟩ := exists_eq_append_trim cs
  obtain ⟨position', hsplit⟩ : ∃ position', returnsFrom chosen position cs =
      returnsFrom chosen position lead ++ returnsFrom chosen (position + lead.length) (trim cs) ++
        returnsFrom chosen position' trail := by
    refine ⟨position + (lead ++ trim cs).length, ?_⟩
    rw [← returnsFrom_append, ← returnsFrom_append, ← hcs]
  refine ⟨position + lead.length, ?_⟩
  calc trim (returnsFrom chosen position cs)
    _ = trim (returnsFrom chosen position lead ++
          returnsFrom chosen (position + lead.length) (trim cs)) := by
      rw [hsplit, trim_append_of_blank (isBlankText_returnsFrom chosen htrail _)]
    _ = trim (returnsFrom chosen (position + lead.length) (trim cs)) :=
      congrArg trimRight (trimLeft_append_of_blank (isBlankText_returnsFrom chosen hlead _) _)
    _ = returnsFrom chosen (position + lead.length) (trim cs) :=
      trim_returnsFrom_of_trim chosen _ cs

/-! ## Lines -/

/-- Both line breaks end the same lines. -/
theorem lines_returnsFrom {cs : List Char} (h : '\r' ∉ cs) (position : Nat) :
    lines (returnsFrom chosen position cs) = lines cs := by
  induction cs generalizing position with
  | nil => rfl
  | cons c cs ih =>
    obtain ⟨hc, hcs⟩ := not_or.1 (mt List.mem_cons.2 h)
    have hnext := ih hcs (position + 1)
    rw [returnsFrom_cons]
    by_cases hn : c = '\n'
    · subst hn
      rcases returned_newline_cases chosen position with hbreak | hbreak <;>
        rw [hbreak] <;> exact congrArg ([] :: ·) hnext
    · rw [returned_of_ne chosen hn, List.singleton_append,
        lines_cons hn fun _ hr => absurd hr (Ne.symm hc), hnext,
        lines_cons hn fun _ hr => absurd hr (Ne.symm hc)]

end Text

/-! ## Sources -/

/-- A source with carriage returns in front of its line feeds at the chosen positions. -/
def withReturns (chosen : Nat → Bool) (source : String) : String :=
  String.ofList (returnsFrom chosen 0 source.toList)

/-- A cursor finds the same lines and components in both sources. -/
theorem ofSource_withReturns {source : String} (h : '\r' ∉ source.toList) (chosen : Nat → Bool) :
    Cursor.ofSource (withReturns chosen source) = Cursor.ofSource source := by
  obtain ⟨position, htrim⟩ := exists_trim_returnsFrom chosen 0 source.toList
  have htrimmed : '\r' ∉ trim source.toList := fun hr => h (mem_of_mem_trim hr)
  rw [Cursor.ofSource, Cursor.ofSource, sourceLines, sourceLines, withReturns,
    String.toList_ofList, htrim, lines_returnsFrom chosen htrimmed]

/-- Whichever line feeds of a source without carriage returns get one in front of them,
    the source has the same tokens, in the same places, and the same program or error. -/
theorem reading_withReturns {source : String} (h : '\r' ∉ source.toList)
    (chosen : Nat → Bool) :
    tokenize (withReturns chosen source) = tokenize source ∧
      parse (withReturns chosen source) = parse source := by
  have hcursor := ofSource_withReturns h chosen
  constructor
  · rw [tokenize, tokenize, hcursor]
  · rw [parse, parse, hcursor]

/-- Of five line breaks, the one in front of the first word, that of the blank line and the
    last one get a carriage return. -/
theorem reading_withReturns_of_mixed_breaks :
    '\r' ∉ "\nfd 10 \n\n  rt [\n]\n".toList ∧
      tokenize "\r\nfd 10 \n\r\n  rt [\n]\r\n" = tokenize "\nfd 10 \n\n  rt [\n]\n" ∧
      parse "\r\nfd 10 \n\r\n  rt [\n]\r\n" = parse "\nfd 10 \n\n  rt [\n]\n" := by
  have hnone : '\r' ∉ "\nfd 10 \n\n  rt [\n]\n".toList := by decide
  have hreturns : withReturns (fun i => i ∈ [0, 8, 17]) "\nfd 10 \n\n  rt [\n]\n" =
      "\r\nfd 10 \n\r\n  rt [\n]\r\n" := by decide
  have hreading := reading_withReturns hnone fun i => i ∈ [0, 8, 17]
  rw [hreturns] at hreading
  exact ⟨hnone, hreading⟩

end LogoSyntax

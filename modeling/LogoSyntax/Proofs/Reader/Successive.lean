-- SUMMARY: Programs asked for one after another: each request goes on in front of the token that the last one failed at.
import Mathlib
import LogoSyntax.Proofs.Grammar.Program

/-!
# Successive programs

A reader can be asked for programs one after another. What a request answers and
where it stops depends on the pending tokens alone (`Reader.parse_congr`), however
far the reader was looked ahead on before. A request that fails leaves the token of
its error pending, and one that succeeds leaves the end of the source
(`Reader.parse_cases`).

The pending tokens are therefore always a suffix of those of the source, and every
request is answered as by a fresh reader in front of that suffix
(`programs_resume_at_error`).
-/

namespace LogoSyntax

open Parse Grammar

/-! ## Cursors on the way -/

/-- A token that the grammar sees in front of a cursor is one that reading stands in
    front of at some point, with the same tokens behind it. -/
theorem Cursor.exists_visited {c : Cursor} {us ts : List Token} {t : Token}
    (h : Token.significant c.tokens = us ++ t :: ts) :
    ∃ d ∈ c.visited, d.token = t ∧ Token.significant d.tokens = t :: ts := by
  induction c using tokens_induction generalizing us with
  | last c hm =>
    have hone := h
    rw [tokens_of_not_matched hm] at hone
    have hlength := congrArg List.length hone
    have hle : (Token.significant [c.token]).length ≤ 1 := List.length_filter_le _ _
    simp only [List.length_append, List.length_cons] at hlength
    obtain rfl : us = [] := List.length_eq_zero_iff.1 (by omega)
    have hmem : t ∈ Token.significant [c.token] := hone ▸ List.mem_cons_self
    obtain rfl := List.mem_singleton.1 (List.mem_filter.1 hmem).1
    refine ⟨c, ?_, rfl, h⟩
    rw [visited, dif_neg (by simp [hm])]
    exact List.mem_cons_self
  | step c hm ih =>
    have hstep := h
    rw [tokens_of_matched hm] at hstep
    rw [visited, dif_pos hm]
    by_cases hk : c.token.kind = .endOfLine
    · rw [Token.significant_cons_endOfLine hk] at hstep
      obtain ⟨d, hd, hrest⟩ := ih hstep
      exact ⟨d, List.mem_cons_of_mem c hd, hrest⟩
    · rw [Token.significant_cons_of_ne hk] at hstep
      cases us with
      | nil =>
        obtain rfl := (List.cons.inj hstep).1
        exact ⟨c, List.mem_cons_self, rfl, h⟩
      | cons u us =>
        obtain ⟨d, hd, hrest⟩ := ih (List.cons.inj hstep).2
        exact ⟨d, List.mem_cons_of_mem c hd, hrest⟩

namespace Reader

variable {r s : Reader}

/-! ## One request -/

/-- A reader has fuel enough for all of its pending tokens. -/
theorem le_fuel (r : Reader) : 8 * r.pending.length + 4 ≤ r.fuel := by
  have hlength : r.pending.length ≤ r.queue.length + (r.cursor.size + 1) := by
    unfold pending
    split
    · exact Nat.le_add_right _ _
    · have hle : (Token.significant r.cursor.tokens).length ≤ r.cursor.tokens.length :=
        List.length_filter_le _ _
      have hsize := r.cursor.length_tokens_le
      rw [List.length_append]
      omega
  rw [fuel]
  omega

theorem pending_parse_of_runs {o : Except SyntaxError Program} {T : List Token}
    (h : Runs (program r.fuel) r.pending o T) : r.parse.2.pending = T := by
  obtain ⟨r', hr', hp⟩ := h r rfl
  rw [parse, hr']
  cases o <;> exact hp

/-- Parsing ends, within the fuel of the reader, with a program in front of the end
    or with an error in front of the first token that does not fit. -/
theorem runs_program (h : Stream r.pending) :
    (∃ us last p, r.pending = us ++ [last] ∧ last.kind = .noMore ∧ DerivesProgram us p ∧
      Runs (program r.fuel) r.pending (.ok p) [last]) ∨
    ∃ us t rest production expected, r.pending = us ++ t :: rest ∧
      Viable us ∧ ¬ Viable (us ++ [t]) ∧
      Runs (program r.fuel) r.pending (.error (.ofToken production expected t)) (t :: rest) := by
  have hfuel := r.le_fuel
  rcases program_outcome h hfuel with
    ⟨us, last, p, hus, hlast, hp⟩ | ⟨us, t, rest, production, expected, hus, hrefuses⟩
  · rw [hus, List.length_append] at hfuel
    exact .inl ⟨us, last, p, hus, hlast, hp, hus ▸ hp.runs hlast (by omega)⟩
  · exact .inr ⟨us, t, rest, production, expected, hus, hrefuses.explains.completable,
      hrefuses.not_viable, hus ▸ hrefuses.runs us t rest rfl rfl⟩

/-- The pending tokens are a program up to the end, which alone is left pending. Or
    there is an error at one of them: those before it begin a program, but not
    together with it, and it is left pending with all that stand behind it. -/
theorem parse_cases (h : Stream r.pending) :
    (∃ us last p, r.pending = us ++ [last] ∧ last.kind = .noMore ∧ DerivesProgram us p ∧
      r.parse.1 = .ok p ∧ r.parse.2.pending = [last]) ∨
    ∃ us t rest production expected, r.pending = us ++ t :: rest ∧
      Viable us ∧ ¬ Viable (us ++ [t]) ∧
      r.parse.1 = .error (.syntaxError (.ofToken production expected t)) ∧
      r.parse.2.pending = t :: rest := by
  rcases runs_program h with
    ⟨us, last, p, hus, hlast, hp, hrun⟩ |
    ⟨us, t, rest, production, expected, hus, hviable, hnot, hrun⟩
  · exact .inl ⟨us, last, p, hus, hlast, hp, parse_of_runs hrun, pending_parse_of_runs hrun⟩
  · exact .inr ⟨us, t, rest, production, expected, hus, hviable, hnot, parse_of_runs hrun,
      pending_parse_of_runs hrun⟩

theorem exists_runs_program (h : Stream r.pending) :
    ∃ o T, Runs (program r.fuel) r.pending o T := by
  rcases runs_program h with ⟨_, last, p, _, _, _, hrun⟩ | ⟨_, _, _, _, _, _, _, _, hrun⟩
  · exact ⟨_, _, hrun⟩
  · exact ⟨_, _, hrun⟩

/-- Readers with the same pending tokens are parsed alike, whichever of these tokens
    they have looked at. -/
theorem parse_congr (h : Stream r.pending) (hrs : s.pending = r.pending) :
    s.parse.1 = r.parse.1 ∧ s.parse.2.pending = r.parse.2.pending := by
  obtain ⟨o, T, hr⟩ := exists_runs_program h
  obtain ⟨o', T', hs⟩ := exists_runs_program (hrs ▸ h : Stream s.pending)
  have hanswers := And.intro (parse_of_runs hr) (parse_of_runs hs)
  rw [hanswers.1, hanswers.2, pending_parse_of_runs hr, pending_parse_of_runs hs]
  -- The readers differ in their fuel. With the greater of both there is one outcome.
  have hr' := (program_extends (Nat.le_max_left r.fuel s.fuel)).runs hr
  have hs' := (program_extends (Nat.le_max_right r.fuel s.fuel)).runs hs
  obtain ⟨front, last, hlast, hm⟩ := h.exists_last
  rw [hlast] at hr'
  rw [hrs, hlast] at hs'
  obtain ⟨rfl, rfl⟩ := hs'.unique hr' hm
  exact ⟨rfl, rfl⟩

/-- In front of the end of a source there is the empty program, again and again. -/
theorem parse_of_end {last : Token} (h : r.pending = [last]) (hk : last.kind = .noMore) :
    r.parse.1 = .ok ⟨[]⟩ ∧ r.parse.2.pending = [last] := by
  have hempty : DerivesProgram [] ⟨[]⟩ := DerivesBlocks.nil
  have hrun : Runs (program r.fuel) r.pending (.ok ⟨[]⟩) [last] := by
    rw [h]
    exact hempty.runs hk (Nat.le_trans (Nat.le_add_left _ _) r.le_fuel)
  exact ⟨parse_of_runs hrun, pending_parse_of_runs hrun⟩

/-! ## Requests one after another -/

/-- The reader of a source behind some requests for a program. -/
def behind (source : String) : Nat → Reader
  | 0 => ofCursor (Cursor.ofSource source)
  | n + 1 => (behind source n).parse.2

/-- What is left pending behind some requests are the last tokens of the source. -/
theorem pending_behind (source : String) (n : Nat) :
    Stream (behind source n).pending ∧
      (behind source n).pending <:+ Token.significant (tokenize source) := by
  induction n with
  | zero => exact ⟨stream_tokenize source, List.suffix_rfl⟩
  | succ n ih =>
    obtain ⟨hstream, hsuffix⟩ := ih
    rcases parse_cases hstream with
      ⟨us, last, _, hus, _, _, _, hpending⟩ | ⟨us, t, rest, _, _, hus, _, _, _, hpending⟩
    · rw [hus] at hstream hsuffix
      rw [behind, hpending]
      exact ⟨(hstream.split (by simp)).2, (List.suffix_append us [last]).trans hsuffix⟩
    · rw [hus] at hstream hsuffix
      rw [behind, hpending]
      exact ⟨(hstream.split (by simp)).2, (List.suffix_append us (t :: rest)).trans hsuffix⟩

/-- Once only the end of the source is pending, it stays so. -/
theorem parse_behind_of_end {source : String} {n : Nat} {last : Token}
    (h : (behind source (n + 1)).pending = [last]) (hk : last.kind = .noMore) {m : Nat}
    (hm : n < m) : (behind source m).parse.1 = .ok ⟨[]⟩ := by
  have hpending : (behind source m).pending = [last] := by
    induction hm with
    | refl => exact h
    | step _ ih => exact (parse_of_end ih hk).2
  exact (parse_of_end hpending hk).1

end Reader

/-- The first request for a program begins with the first token of a source. Every
    request is answered as by a fresh reader at a cursor on the way, whose tokens are
    the last ones of the source. If it is answered by a program, then all requests
    behind it are answered by the empty one. Otherwise the next request begins with
    the token that the error is at. A source that ends in a component that no shape
    fits is never answered by a program. -/
theorem programs_resume_at_error (source : String) :
    (Reader.behind source 0).pending = Token.significant (tokenize source) ∧
    (∀ n,
      (∃ c ∈ (Cursor.ofSource source).visited,
        (Reader.behind source n).pending.head? = some c.token ∧
        (Reader.behind source n).pending = Token.significant c.tokens ∧
        (Reader.behind source n).pending <:+ Token.significant (tokenize source) ∧
        (Reader.behind source n).parse.1 = (Reader.ofCursor c).parse.1) ∧
      ((∃ us last p, (Reader.behind source n).pending = us ++ [last] ∧ last.kind = .noMore ∧
          DerivesProgram us p ∧ (Reader.behind source n).parse.1 = .ok p ∧
          (Reader.behind source (n + 1)).pending = [last] ∧
          ∀ m, n < m → (Reader.behind source m).parse.1 = .ok ⟨[]⟩) ∨
        ∃ us t rest production expected, (Reader.behind source n).pending = us ++ t :: rest ∧
          Viable us ∧ ¬ Viable (us ++ [t]) ∧
          (Reader.behind source n).parse.1 =
            .error (.syntaxError (.ofToken production expected t)) ∧
          (Reader.behind source (n + 1)).pending = t :: rest)) ∧
    ((Token.significant (tokenize source)).getLast?.map Token.kind = some .notFound →
      ∀ n p, (Reader.behind source n).parse.1 ≠ .ok p) := by
  refine ⟨rfl, fun n => ⟨?_, ?_⟩, fun hlast n p hp => ?_⟩
  · obtain ⟨hstream, us, hus⟩ := Reader.pending_behind source n
    obtain ⟨t, ts, hts⟩ := List.exists_cons_of_ne_nil hstream.ne_nil
    rw [hts] at hus
    obtain ⟨c, hc, hct, htokens⟩ := Cursor.exists_visited hus.symm
    have hfresh : (Reader.ofCursor c).pending = (Reader.behind source n).pending := by
      rw [hts, ← htokens]
      rfl
    refine ⟨c, hc, ?_, hts.trans htokens.symm, ⟨us, by rw [hts, hus]⟩, ?_⟩
    · rw [hts, hct]
      rfl
    · exact (Reader.parse_congr hstream hfresh).1.symm
  · rcases Reader.parse_cases (Reader.pending_behind source n).1 with
      ⟨us, last, p, hus, hk, hp, hok, hpending⟩ | herror
    · exact .inl ⟨us, last, p, hus, hk, hp, hok, hpending, fun m hm =>
        Reader.parse_behind_of_end hpending hk hm⟩
    · exact .inr herror
  · obtain ⟨hstream, hsuffix⟩ := Reader.pending_behind source n
    rcases Reader.parse_cases hstream with
      ⟨us, last, _, hus, hk, -⟩ | ⟨_, _, _, _, _, _, _, _, herror, -⟩
    · obtain ⟨front, hfront⟩ := hsuffix
      rw [hus] at hfront
      rw [← hfront, ← List.append_assoc, List.getLast?_concat] at hlast
      simp [hk] at hlast
    · simp [herror] at hp

/-- A closing bracket is refused again and again, and the component behind it that no
    shape fits is never reached. -/
theorem programs_refused_at_bracket :
    (Token.significant (tokenize "] ??")).getLast?.map Token.kind = some .notFound ∧
      ∀ n p, (Reader.behind "] ??" n).parse.1 ≠ .ok p := by
  have hlast : (Token.significant (tokenize "] ??")).getLast?.map Token.kind = some .notFound := by
    cbv
  exact ⟨hlast, (programs_resume_at_error "] ??").2.2 hlast⟩

end LogoSyntax

-- SUMMARY: The history of a source that is asked for programs again and again, and what holds of its reader at every moment.
import LogoSyntax.Proofs.Grammar.Progress

/-!
# History

A source that is asked for programs again and again has a history: the steps that its
reader takes for one request after another (`Answers`). At every moment of it, also in the
midst of a production and behind one that failed, the queue and the tokens that the cursor
has yet to give are what is left of the source (`lookahead_conserves_tokens`).

Looking ahead shows these tokens by their place, however far they were looked at before
(`Stream.peekNth`). The token that marks the end stands for all places behind it, is never
consumed, and is therefore asked for only once.
-/

namespace LogoSyntax

open Parse Grammar

/-! ## The end of a source -/

/-- One token in front of a cursor is not matched. -/
theorem Cursor.length_unmatched_tokens (c : Cursor) :
    (c.tokens.filter fun t => !t.matched).length = 1 := by
  obtain ⟨last, hlast, hm, -⟩ := c.tokens_spec
  have hnone : c.matchedTokens.filter (fun t => !t.matched) = [] := by
    simp [matchedTokens, List.filter_filter]
  rw [hlast, List.filter_append, hnone]
  simp [hm]

namespace Stream

variable {r : Reader}

/-- Only the last token of a queue can be one that is not matched. -/
theorem matched_of_mem_dropLast (h : Stream r.pending) :
    ∀ t ∈ r.queue.dropLast, t.matched = true := by
  obtain ⟨rest, hrest⟩ := r.queue_prefix_pending
  rcases List.eq_nil_or_concat r.queue with hq | ⟨front, last, hq⟩
  · simp [hq]
  · rw [List.concat_eq_append] at hq
    rw [← hrest, hq, List.append_assoc] at h
    rw [hq, List.dropLast_concat]
    exact fun t ht => ((h.split (by simp)).1 t ht).matched

/-- Looking `k` tokens ahead finds the pending token in that place or, if there are fewer,
    the last one, which is not matched. The queue has a token in the place that is asked. -/
theorem peekNth (h : Stream r.pending) (k : Nat) :
    ∃ t, Parse.peekNth k r = .ok t (r.fill k) ∧ (r.fill k).pending = r.pending ∧
      (r.fill k).queue ≠ [] ∧ (r.fill k).queue[min k ((r.fill k).queue.length - 1)]? = some t ∧
      (k < r.pending.length → r.pending[k]? = some t) ∧
      (r.pending.length ≤ k → r.pending.getLast? = some t ∧ t.matched = false) := by
  have hne := r.queue_fill_ne_nil k
  have hpos := List.length_pos_iff.2 hne
  have hplace := r.ahead_fill k
  have hlt : min k ((r.fill k).queue.length - 1) < (r.fill k).queue.length := by omega
  refine ⟨(r.fill k).ahead k, rfl, r.pending_fill k, hne, ?_, fun hk => ?_, fun hk => ?_⟩
  · rw [Reader.ahead, List.getElem?_eq_getElem hlt, Option.getD_some]
  · rwa [Nat.min_eq_left (by omega)] at hplace
  · obtain ⟨front, last, hlast, hm⟩ := h.exists_last
    rw [Nat.min_eq_right (by omega), ← List.getLast?_eq_getElem?] at hplace
    rw [hlast, List.getLast?_concat] at hplace
    rw [hlast, List.getLast?_concat, ← Option.some.inj hplace]
    exact ⟨rfl, hm⟩

end Stream

namespace Reader

/-! ## Histories -/

/-- The steps in which the reader of a source answers some first requests for a program. -/
inductive Answers (source : String) : Nat → List Step → Prop where
  | zero : Answers source 0 []
  | succ {n : Nat} {steps more : List Step} (h : Answers source n steps)
      (hmore : Takes (program (behind source n).fuel) (behind source n) more) :
      Answers source (n + 1) (steps ++ more)

theorem Answers.walk {source : String} {n : Nat} {steps : List Step} (h : Answers source n steps) :
    (ofSource source).walk steps = behind source n := by
  induction h with
  | zero => rfl
  | succ h hmore ih => rw [walk_append, ih, hmore.walk, leave_program, behind]

/-- All requests are answered in orderly steps. -/
theorem exists_answers (source : String) (n : Nat) :
    ∃ steps, Answers source n steps ∧ (ofSource source).Orderly steps := by
  induction n with
  | zero => exact ⟨[], .zero, trivial⟩
  | succ n ih =>
    obtain ⟨steps, hsteps, horderly⟩ := ih
    obtain ⟨more, hmore, horderly', -⟩ :=
      program_keeps (behind source n).fuel (pending_behind source n).1 _ rfl
    exact ⟨steps ++ more, hsteps.succ hmore,
      orderly_append.2 ⟨horderly, hsteps.walk.symm ▸ horderly'⟩⟩

/-! ## Moments -/

/-- What holds of the reader of a source behind some steps. -/
structure Conserves (source : String) (done : List Step) (r : Reader) : Prop where
  /-- The cursor has given some first tokens of the source, and has the others yet to give. -/
  drawn : (ofSource source).drawn done ++ r.yet = tokenize source
  /-- The token that marks the end was given once at most. -/
  unmatched : (((ofSource source).drawn done).filter fun t => !t.matched).length ≤ 1
  /-- Some first tokens were consumed, and the others are pending. -/
  consumed : (ofSource source).consumed done ++ r.pending = Token.significant (tokenize source)
  matched_of_consumed : ∀ t ∈ (ofSource source).consumed done, t.matched = true
  pending : r.pending = r.queue ++ Token.significant r.yet
  queue_length : r.queue.length ≤ 2
  queue_kind : ∀ t ∈ r.queue, t.kind ≠ .endOfLine
  queue_matched : ∀ t ∈ r.queue.dropLast, t.matched = true

theorem Orderly.conserves {source : String} {done : List Step}
    (h : (ofSource source).Orderly done) : Conserves source done ((ofSource source).walk done) := by
  have hdrawn : (ofSource source).drawn done ++ ((ofSource source).walk done).yet =
      tokenize source := h.drawn_append_yet
  have hconsumed : (ofSource source).consumed done ++ ((ofSource source).walk done).pending =
      Token.significant (tokenize source) := h.consumed_append_pending
  have hstream := h.stream (Cursor.ofSource source).stream_significant
  refine ⟨hdrawn, ?_, hconsumed, h.matched_of_mem_consumed, pending_eq _,
    h.length_queue_le (Nat.zero_le 2), fun t ht => ?_, hstream.matched_of_mem_dropLast⟩
  · have hone := (Cursor.ofSource source).length_unmatched_tokens
    rw [← tokenize, ← hdrawn, List.filter_append, List.length_append] at hone
    omega
  · have hmem : t ∈ Token.significant (tokenize source) := by
      rw [← hconsumed]
      exact List.mem_append_right _ ((queue_prefix_pending _).subset ht)
    simpa [Token.significant] using (List.mem_filter.1 hmem).2

end Reader

/-- However often a source is asked for a program, at every moment of answering its tokens
    are conserved: those in the queue and behind them those that the cursor has yet to give
    are the ones that were not consumed. Looking ahead from there finds the pending token in
    its place, and consuming takes the first one off a queue that is not empty. -/
theorem lookahead_conserves_tokens (source : String) (n : Nat) :
    ∃ steps, Reader.Answers source n steps ∧
      (Reader.ofSource source).walk steps = Reader.behind source n ∧
      ∀ done r, done <+: steps → (Reader.ofSource source).walk done = r →
        Reader.Conserves source done r ∧
        (∀ k, ∃ t, Parse.peekNth k r = .ok t (r.fill k) ∧ (r.fill k).pending = r.pending ∧
          (r.fill k).queue ≠ [] ∧
          (r.fill k).queue[min k ((r.fill k).queue.length - 1)]? = some t ∧
          (k < r.pending.length → r.pending[k]? = some t) ∧
          (r.pending.length ≤ k → r.pending.getLast? = some t ∧ t.matched = false)) ∧
        ∃ t rest, (r.fill 0).queue = t :: rest ∧
          Parse.advance r = .ok t { r.fill 0 with queue := rest } := by
  obtain ⟨steps, hsteps, horderly⟩ := Reader.exists_answers source n
  refine ⟨steps, hsteps, hsteps.walk, ?_⟩
  rintro done r hdone rfl
  have hpast := horderly.of_prefix hdone
  have hstream := hpast.stream (Cursor.ofSource source).stream_significant
  exact ⟨hpast.conserves, fun k => hstream.peekNth k, advance_eq _⟩

end LogoSyntax

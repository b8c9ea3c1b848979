-- SUMMARY: The single steps that parsing takes on a reader, and what orderly steps conserve: no token is lost, repeated or asked for twice.
import LogoSyntax.Proofs.Reader.Pending

/-!
# Steps

Whatever an action does to a reader is done in single steps: the cursor gives a token
to the queue, the first token of the queue is consumed, or a record is logged. A step is
orderly if it asks the cursor for a token only while the queue has room and does not end
in an unmatched token, and if it consumes only a matched token.

Orderly steps conserve the tokens of a source. Those drawn from the cursor so far and
those it has yet to give are all of them (`drawn_append_yet`), and those consumed so far
and those pending are all that matter to the grammar (`consumed_append_pending`). A reader
that orderly steps lead to is `Reachable`.
-/

namespace LogoSyntax.Reader

/-! ## Tokens that the cursor has yet to give -/

/-- The tokens that the cursor has yet to give. It would only repeat an unmatched token
    that was given already. -/
def yet (r : Reader) : List Token :=
  if r.closed then [] else r.cursor.tokens

theorem pending_eq (r : Reader) : r.pending = r.queue ++ Token.significant r.yet := by
  unfold pending yet
  split <;> simp

/-- The queue is closed by pulling an unmatched token into it. -/
theorem closed_pull {r : Reader} (h : r.closed = false) :
    r.pull.closed = !r.cursor.token.matched := by
  rcases r.cursor.token_cases with hc | ⟨hm, hk⟩ | ⟨hm, hk⟩
  · have hne := TokenKind.ne_endOfLine_of_isMarker hc.isMarker
    simp [pull, closed, hne, hc.matched]
  · simpa [pull, closed, hk, hm] using h
  · have hne := TokenKind.ne_endOfLine_of_isEnd hk
    simp [pull, closed, hne, hm]

theorem yet_pull {r : Reader} (h : r.closed = false) : r.cursor.token :: r.pull.yet = r.yet := by
  rw [yet, yet, closed_pull h, h]
  cases hm : r.cursor.token.matched with
  | true => simp [Cursor.tokens_of_matched hm, pull]
  | false => simp [Cursor.tokens_of_not_matched hm]

/-- Consuming a matched token neither opens nor closes the queue. -/
theorem closed_tail {r : Reader} {t : Token} {rest : List Token} (hq : r.queue = t :: rest)
    (hm : t.matched = true) : { r with queue := rest }.closed = r.closed := by
  cases rest with
  | nil => simp [closed, hq, hm]
  | cons u us => simp [closed, hq]

/-! ## Single steps -/

/-- A step on a reader. -/
inductive Step where
  /-- The cursor gives a token, which joins the queue unless it is the end of a line. -/
  | pull
  /-- The first token of the queue is consumed. -/
  | pop
  | note (entry : Log.Record)
deriving DecidableEq, Repr

namespace Step

/-- The reader behind a step. -/
def next : Step → Reader → Reader
  | pull, r => r.pull
  | pop, r => { r with queue := r.queue.tail }
  | note entry, r => r.record entry

/-- What a step draws from the cursor. -/
def drawn : Step → Reader → List Token
  | pull, r => [r.cursor.token]
  | _, _ => []

/-- What a step consumes. -/
def consumed : Step → Reader → List Token
  | pop, r => r.queue.head?.toList
  | _, _ => []

/-- The queue is pulled into only if it has room and is not closed, and only a matched
    token is consumed. -/
def Orderly : Step → Reader → Prop
  | pull, r => r.closed = false ∧ r.queue.length ≤ 1
  | pop, r => ∃ t rest, r.queue = t :: rest ∧ t.matched = true
  | note _, _ => True

variable {step : Step} {r : Reader}

/-- A step moves what it draws out of what the cursor has yet to give. -/
theorem drawn_append_yet (h : step.Orderly r) : step.drawn r ++ (step.next r).yet = r.yet := by
  cases step with
  | pull => exact yet_pull h.1
  | pop =>
    obtain ⟨t, rest, hq, hm⟩ := h
    have hclosed := closed_tail hq hm
    simp only [drawn, next, List.nil_append, yet, hq, List.tail_cons, hclosed]
  | note entry => rfl

/-- A step moves what it consumes out of the pending tokens. -/
theorem consumed_append_pending (h : step.Orderly r) :
    step.consumed r ++ (step.next r).pending = r.pending := by
  cases step with
  | pull => exact pending_pull h.1
  | pop =>
    have hyet : (pop.next r).yet = r.yet := drawn_append_yet h
    obtain ⟨t, rest, hq, hm⟩ := h
    rw [pending_eq, pending_eq, hyet, hq]
    simp [consumed, next, hq]
  | note entry => rfl

theorem matched_of_mem_consumed (h : step.Orderly r) :
    ∀ t ∈ step.consumed r, t.matched = true := by
  cases step with
  | pull | note => simp [consumed]
  | pop =>
    obtain ⟨t, rest, hq, hm⟩ := h
    simp [consumed, hq, hm]

/-- No step makes the queue longer than two tokens. -/
theorem length_queue_le (h : step.Orderly r) (hr : r.queue.length ≤ 2) :
    (step.next r).queue.length ≤ 2 := by
  cases step with
  | pull =>
    have hroom := h.2
    simp only [next, Reader.pull]
    split
    · exact hr
    · simp only [List.length_append, List.length_singleton]
      omega
  | pop => simp only [next, List.length_tail]; omega
  | note entry => exact hr

end Step

/-! ## Steps one after another -/

/-- The reader behind some steps. -/
def walk (r : Reader) : List Step → Reader
  | [] => r
  | step :: steps => (step.next r).walk steps

/-- What some steps draw from the cursor, the first token first. -/
def drawn (r : Reader) : List Step → List Token
  | [] => []
  | step :: steps => step.drawn r ++ (step.next r).drawn steps

/-- What some steps consume, the first token first. -/
def consumed (r : Reader) : List Step → List Token
  | [] => []
  | step :: steps => step.consumed r ++ (step.next r).consumed steps

/-- Each of some steps is orderly when it is taken. -/
def Orderly (r : Reader) : List Step → Prop
  | [] => True
  | step :: steps => step.Orderly r ∧ (step.next r).Orderly steps

variable {r : Reader} {steps more : List Step}

theorem walk_append (r : Reader) (steps more : List Step) :
    r.walk (steps ++ more) = (r.walk steps).walk more := by
  induction steps generalizing r with
  | nil => rfl
  | cons step steps ih => exact ih _

theorem orderly_append :
    r.Orderly (steps ++ more) ↔ r.Orderly steps ∧ (r.walk steps).Orderly more := by
  induction steps generalizing r with
  | nil => simp [Orderly, walk]
  | cons step steps ih => simp [Orderly, walk, ih, and_assoc]

/-- The steps up to any point are orderly. -/
theorem Orderly.of_prefix (h : r.Orderly steps) (hm : more <+: steps) : r.Orderly more := by
  obtain ⟨rest, rfl⟩ := hm
  exact (orderly_append.1 h).1

namespace Orderly

/-- What was drawn and what the cursor has yet to give is always the same. -/
theorem drawn_append_yet (h : r.Orderly steps) : r.drawn steps ++ (r.walk steps).yet = r.yet := by
  induction steps generalizing r with
  | nil => rfl
  | cons step steps ih =>
    rw [drawn, walk, List.append_assoc, ih h.2, step.drawn_append_yet h.1]

/-- What was consumed and what is pending is always the same. -/
theorem consumed_append_pending (h : r.Orderly steps) :
    r.consumed steps ++ (r.walk steps).pending = r.pending := by
  induction steps generalizing r with
  | nil => rfl
  | cons step steps ih =>
    rw [consumed, walk, List.append_assoc, ih h.2, step.consumed_append_pending h.1]

theorem matched_of_mem_consumed (h : r.Orderly steps) :
    ∀ t ∈ r.consumed steps, t.matched = true := by
  induction steps generalizing r with
  | nil => simp [consumed]
  | cons step steps ih =>
    rw [consumed, List.forall_mem_append]
    exact ⟨step.matched_of_mem_consumed h.1, ih h.2⟩

theorem length_queue_le (h : r.Orderly steps) (hr : r.queue.length ≤ 2) :
    (r.walk steps).queue.length ≤ 2 := by
  induction steps generalizing r with
  | nil => exact hr
  | cons step steps ih => exact ih h.2 (step.length_queue_le h.1 hr)

theorem consumed_ne_nil (h : r.Orderly steps) (hpop : .pop ∈ steps) : r.consumed steps ≠ [] := by
  induction steps generalizing r with
  | nil => simp at hpop
  | cons step steps ih =>
    rcases List.mem_cons.1 hpop with rfl | hpop
    · obtain ⟨t, rest, hq, -⟩ := h.1
      simp [consumed, Step.consumed, hq]
    · simp [consumed, ih h.2 hpop]

/-- The pending tokens stay a stream. -/
theorem stream (h : r.Orderly steps) (hr : Stream r.pending) : Stream (r.walk steps).pending := by
  have hsplit := h.consumed_append_pending
  have hne : (r.walk steps).pending ≠ [] := by
    intro hnil
    obtain ⟨front, last, hlast, hm⟩ := hr.exists_last
    rw [hnil, List.append_nil, hlast] at hsplit
    have := h.matched_of_mem_consumed last (by simp [hsplit])
    simp [hm] at this
  exact ((hsplit ▸ hr).split hne).2

end Orderly

/-! ## Looking ahead in steps -/

/-- The steps in which the queue is filled. -/
def pulls (r : Reader) (n : Nat) : List Step :=
  if r.reaches n then []
  else if _h : r.cursor.token.matched = true then .pull :: r.pull.pulls n else [.pull]
termination_by r.cursor.size
decreasing_by exact Cursor.size_advance_lt _h

theorem walk_pulls (r : Reader) (n : Nat) : r.walk (r.pulls n) = r.fill n := by
  fun_induction Reader.fill r n with
  | case1 r h => rw [pulls, if_pos h, walk]
  | case2 r h hm ih => rw [pulls, if_neg h, dif_pos hm, walk, Step.next, ih]
  | case3 r h hm => rw [pulls, if_neg h, dif_neg hm, walk, walk, Step.next]

/-- Looking at the next token or the one behind it is orderly. -/
theorem orderly_pulls {n : Nat} (hn : n ≤ 1) (r : Reader) : r.Orderly (r.pulls n) := by
  have hpull : ∀ {s : Reader}, ¬ s.reaches n = true → Step.pull.Orderly s := by
    intro s h
    refine ⟨closed_of_not_reaches h, ?_⟩
    simp only [reaches_eq, Bool.or_eq_true, decide_eq_true_eq, not_or] at h
    omega
  fun_induction Reader.pulls r n with
  | case1 r h => trivial
  | case2 r h hm ih => exact ⟨hpull h, ih⟩
  | case3 r h hm => exact ⟨hpull h, trivial⟩

/-! ## Reachable readers -/

/-- The fresh reader of a source. -/
def ofSource (source : String) : Reader :=
  ofCursor (Cursor.ofSource source)

/-- Orderly steps lead from the fresh reader of the source to this one. -/
def Reachable (source : String) (r : Reader) : Prop :=
  ∃ steps, (ofSource source).Orderly steps ∧ (ofSource source).walk steps = r

namespace Reachable

variable {source : String}

theorem ofSource (source : String) : (ofSource source).Reachable source :=
  ⟨[], trivial, rfl⟩

theorem walk (h : r.Reachable source) (hsteps : r.Orderly steps) :
    (r.walk steps).Reachable source := by
  obtain ⟨before, hbefore, rfl⟩ := h
  exact ⟨before ++ steps, orderly_append.2 ⟨hbefore, hsteps⟩, walk_append _ _ _⟩

theorem stream (h : r.Reachable source) : Stream r.pending := by
  obtain ⟨steps, hsteps, rfl⟩ := h
  exact hsteps.stream (Cursor.ofSource source).stream_significant

/-- A reachable reader has some last tokens of the source pending. -/
theorem suffix (h : r.Reachable source) : r.pending <:+ Token.significant (tokenize source) := by
  obtain ⟨steps, hsteps, rfl⟩ := h
  exact ⟨_, hsteps.consumed_append_pending⟩

end Reachable

end LogoSyntax.Reader

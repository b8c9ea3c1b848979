-- SUMMARY: The tokens that a reader has yet to give, and what looking ahead and consuming do to them.
import LogoSyntax.Reader
import LogoSyntax.Proofs.Reader.Stream

/-!
# Pending tokens

The tokens that a reader has yet to give are those in its queue and then those
that its cursor is in front of, without the ends of lines. A queue that ends in
an unmatched token is all there is: the cursor would only give that token again.

`pending` is all that the grammar can learn of a reader. Looking ahead leaves it
as it is (`pending_fill`) and shows its tokens by their place (`ahead_fill`), and
consuming takes the first token away (`pending_advance`).
-/

namespace LogoSyntax

namespace Reader

/-- Whether the queue ends in a token that is not matched. -/
def closed (r : Reader) : Bool :=
  match r.queue.getLast? with
  | some t => !t.matched
  | none => false

/-- The tokens that the reader has yet to give. -/
def pending (r : Reader) : List Token :=
  if r.closed then r.queue else r.queue ++ Token.significant r.cursor.tokens

theorem reaches_eq (r : Reader) (n : Nat) :
    r.reaches n = (decide (n < r.queue.length) || r.closed) := rfl

theorem queue_prefix_pending (r : Reader) : r.queue <+: r.pending := by
  unfold pending
  split
  · exact List.prefix_rfl
  · exact List.prefix_append _ _

theorem queue_ne_nil_of_closed {r : Reader} (h : r.closed = true) : r.queue ≠ [] := by
  intro hq
  simp [closed, hq] at h

theorem pending_ofSource (source : String) :
    (ofCursor (Cursor.ofSource source)).pending = Token.significant (tokenize source) := rfl

@[simp] theorem pending_record (r : Reader) (record : Log.Record) :
    (r.record record).pending = r.pending := rfl

/-! ## Looking ahead -/

/-- Pulling a token into a queue that is not closed moves it from the cursor's
    share of the pending tokens to the queue's. -/
theorem pending_pull {r : Reader} (h : r.closed = false) : r.pull.pending = r.pending := by
  have hp : r.pending = r.queue ++ Token.significant r.cursor.tokens := by simp [pending, h]
  rw [hp]
  rcases r.cursor.token_cases with hc | ⟨hm, hk⟩ | ⟨hm, hk⟩
  · have hne := TokenKind.ne_endOfLine_of_isMarker hc.isMarker
    rw [Cursor.tokens_of_matched hc.matched, Token.significant_cons_of_ne hne]
    simp [pending, pull, closed, hne, hc.matched]
  · rw [Cursor.tokens_of_matched hm, Token.significant_cons_endOfLine hk]
    have hpull : r.pull.closed = false := by simpa [pull, closed, hk] using h
    rw [pending, hpull]
    simp [hk, pull]
  · have hne := TokenKind.ne_endOfLine_of_isEnd hk
    rw [Cursor.tokens_of_not_matched hm, Token.significant_cons_of_ne hne]
    simp [pending, pull, closed, hne, hm]

theorem closed_of_not_reaches {r : Reader} {n : Nat} (h : ¬ r.reaches n = true) :
    r.closed = false := by
  simp only [reaches_eq, Bool.or_eq_true, not_or, Bool.not_eq_true] at h
  exact h.2

/-- Looking ahead gets as far as it has to, and leaves the pending tokens alone. -/
theorem fill_spec (r : Reader) (n : Nat) :
    (r.fill n).pending = r.pending ∧ (r.fill n).reaches n = true := by
  fun_induction Reader.fill r n with
  | case1 r h => exact ⟨rfl, h⟩
  | case2 r h hm ih => exact ⟨ih.1.trans (pending_pull (closed_of_not_reaches h)), ih.2⟩
  | case3 r h hm =>
    refine ⟨pending_pull (closed_of_not_reaches h), ?_⟩
    rcases r.cursor.token_cases with hc | ⟨hm', _⟩ | ⟨hm', hk⟩
    · exact absurd hc.matched hm
    · exact absurd hm' hm
    · have hne := TokenKind.ne_endOfLine_of_isEnd hk
      simp [reaches_eq, pull, closed, hne, hm']

@[simp] theorem pending_fill (r : Reader) (n : Nat) : (r.fill n).pending = r.pending :=
  (fill_spec r n).1

/-- The token `n` places ahead is the one in that place of the pending tokens,
    or the last of them. -/
theorem ahead_fill (r : Reader) (n : Nat) :
    r.pending[min n (r.pending.length - 1)]? = some ((r.fill n).ahead n) := by
  rw [← pending_fill r n]
  have hreach := (fill_spec r n).2
  generalize r.fill n = s at hreach
  have hidx : min n (s.pending.length - 1) = min n (s.queue.length - 1) ∧
      min n (s.queue.length - 1) < s.queue.length := by
    cases hc : s.closed with
    | true =>
      have hpos := List.length_pos_iff.2 (queue_ne_nil_of_closed hc)
      have hq : s.pending = s.queue := by simp [pending, hc]
      rw [hq]
      omega
    | false =>
      have hlt : n < s.queue.length := by simpa [reaches_eq, hc] using hreach
      have hle := (queue_prefix_pending s).length_le
      omega
  obtain ⟨rest, hrest⟩ := queue_prefix_pending s
  rw [hidx.1, ← hrest, List.getElem?_append_left hidx.2]
  simp [ahead, List.getElem?_eq_getElem hidx.2]

/-- Once the first token was looked at, it is the first of the queue. -/
theorem queue_fill {r : Reader} {t : Token} {ts : List Token} (h : r.pending = t :: ts) :
    ∃ rest, (r.fill 0).queue = t :: rest := by
  have hreach := (fill_spec r 0).2
  have hpre := queue_prefix_pending (r.fill 0)
  rw [pending_fill, h] at hpre
  cases hq : (r.fill 0).queue with
  | nil => simp [reaches_eq, closed, hq] at hreach
  | cons u us =>
    rw [hq] at hpre
    exact ⟨us, by rw [(List.cons_prefix_cons.1 hpre).1]⟩

/-! ## Consuming -/

/-- Consuming a token that is not the last one takes it off the pending tokens. -/
theorem pending_advance {r : Reader} {t : Token} {ts : List Token} (h : r.pending = t :: ts)
    (hts : ts ≠ []) : ∃ r', Parse.advance r = .ok t r' ∧ r'.pending = ts := by
  obtain ⟨rest, hq⟩ := queue_fill h
  refine ⟨{ r.fill 0 with queue := rest }, by simp [Parse.advance, hq], ?_⟩
  have hp : (r.fill 0).pending = t :: ts := (pending_fill r 0).trans h
  unfold pending at hp
  rw [hq] at hp
  split at hp
  · next hc =>
    -- The queue holds all pending tokens, so its last one is not `t`.
    obtain rfl : rest = ts := (List.cons.inj hp).2
    cases rest with
    | nil => exact absurd rfl hts
    | cons u us => simp [pending, closed, hq] at hc ⊢; simp [hc]
  · next hc =>
    have hts' : rest ++ Token.significant (r.fill 0).cursor.tokens = ts := (List.cons.inj hp).2
    cases rest with
    | nil => simpa [pending, closed] using hts'
    | cons u us => simp [pending, closed, hq] at hc ⊢; simpa [hc] using hts'

end Reader

end LogoSyntax

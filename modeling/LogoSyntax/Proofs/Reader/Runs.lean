-- SUMMARY: What an action does to the pending tokens of a reader, and the rules for the primitive actions.
import LogoSyntax.Proofs.Reader.Pending

/-!
# Runs

`Runs act S o T` says that on every reader with the pending tokens `S` the
action ends with the outcome `o` and leaves the tokens `T` pending. It speaks of
all readers at once, wherever their cursors stand and however far they were
looked ahead on, so an outcome that is stated this way can depend on nothing but
the pending tokens.
-/

namespace LogoSyntax.Parse

/-- The result of an action that ends with a value or with a syntax error. -/
def ending {α : Type} (o : Except SyntaxError α) (r : Reader) : EStateM.Result Halt Reader α :=
  match o with
  | .ok a => .ok a r
  | .error e => .error (.syntaxError e) r

/-- On every reader with the pending tokens `S`, the action ends with `o` and
    leaves `T` pending. -/
def Runs {α : Type} (act : Parse α) (S : List Token) (o : Except SyntaxError α)
    (T : List Token) : Prop :=
  ∀ r : Reader, r.pending = S → ∃ r', act r = ending o r' ∧ r'.pending = T

/-- What a composite action ends with comes from both of its parts. -/
theorem bind_eq_ok {α β : Type} {x : Parse α} {k : α → Parse β} {r s : Reader} {b : β} :
    (x >>= k) r = .ok b s ↔ ∃ a r', x r = .ok a r' ∧ k a r' = .ok b s := by
  change EStateM.bind x k r = _ ↔ _
  rw [EStateM.bind]
  cases x r with
  | ok a r' => simp [and_assoc]
  | error e r' => simp

namespace Runs

variable {α β : Type} {S T U : List Token} {t : Token}

/-- Some reader has these pending tokens, so at most one outcome is possible. -/
theorem unique {act : Parse α} {last : Token} {o o' : Except SyntaxError α}
    (h : Runs act (S ++ [last]) o T) (h' : Runs act (S ++ [last]) o' U)
    (hm : last.matched = false) : o = o' ∧ T = U := by
  let r : Reader := ⟨⟨1, 1, [], []⟩, S ++ [last], .ofFilter .off⟩
  have hr : r.pending = S ++ [last] := by simp [r, Reader.pending, Reader.closed, hm]
  obtain ⟨s, hs, rfl⟩ := h r hr
  obtain ⟨s', hs', rfl⟩ := h' r hr
  rw [hs] at hs'
  cases o <;> cases o' <;> cases hs' <;> exact ⟨rfl, rfl⟩

theorem pure (a : α) : Runs (pure a) S (.ok a) S :=
  fun r hr => ⟨r, rfl, hr⟩

/-- One action after another, on the tokens that the first one leaves. -/
theorem bind {x : Parse α} {k : α → Parse β} {a : α} {o : Except SyntaxError β}
    (hx : Runs x S (.ok a) T) (hk : Runs (k a) T o U) : Runs (x >>= k) S o U := by
  intro r hr
  obtain ⟨s, hs, hsp⟩ := hx r hr
  obtain ⟨s', hs', hsp'⟩ := hk s hsp
  refine ⟨s', ?_, hsp'⟩
  change EStateM.bind x k r = _
  rw [EStateM.bind, hs]
  exact hs'

theorem bind_error {x : Parse α} {k : α → Parse β} {e : SyntaxError}
    (hx : Runs x S (.error e) T) : Runs (x >>= k) S (.error e) T := by
  intro r hr
  obtain ⟨s, hs, hsp⟩ := hx r hr
  refine ⟨s, ?_, hsp⟩
  change EStateM.bind x k r = _
  rw [EStateM.bind, hs]
  rfl

theorem record (entry : Log.Record) : Runs (record entry) S (.ok ()) S :=
  fun r hr => ⟨r.record entry, rfl, hr⟩

theorem peekNth (n : Nat) (h : S[min n (S.length - 1)]? = some t) :
    Runs (peekNth n) S (.ok t) S := by
  intro r hr
  refine ⟨r.fill n, ?_, by rw [Reader.pending_fill, hr]⟩
  have hahead := Reader.ahead_fill r n
  rw [hr, h] at hahead
  rw [Option.some.inj hahead]
  rfl

theorem peek : Runs peek (t :: S) (.ok t) (t :: S) :=
  peekNth 0 (by simp)

/-- Consuming takes the next token away, if it is not the last one. -/
theorem advance (hS : S ≠ []) : Runs advance (t :: S) (.ok t) S :=
  fun _ hr => Reader.pending_advance hr hS

theorem check (kind : TokenKind) : Runs (check kind) (t :: S) (.ok (t.kind == kind)) (t :: S) :=
  bind peek (pure _)

/-- Stopping names the next token and leaves it pending. -/
theorem unexpected (production : String) (expected : Expected) :
    Runs (unexpected (α := α) production expected) (t :: S)
      (.error (.ofToken production expected t)) (t :: S) :=
  bind peek (bind (record _) fun r hr => ⟨r, rfl, hr⟩)

/-- Insisting on a kind that the next token has consumes it. -/
theorem expect {kind : TokenKind} (production : String) (h : t.kind = kind) (hS : S ≠ []) :
    Runs (expect kind production) (t :: S) (.ok t) S := by
  refine bind (check kind) ?_
  simpa [h] using advance hS

theorem expect_error {kind : TokenKind} (production : String) (h : t.kind ≠ kind) :
    Runs (Parse.expect kind production) (t :: S)
      (.error (.ofToken production (.token kind) t)) (t :: S) := by
  refine bind (check kind) ?_
  simpa [h] using unexpected production (.token kind)

/-! ## Branching on the next token -/

/-- An action that branches on the next token runs like its branch. -/
theorem peek_bind {k : Token → Parse β} {o : Except SyntaxError β} (h : Runs (k t) (t :: S) o U) :
    Runs (Parse.peek >>= k) (t :: S) o U :=
  bind peek h

theorem check_true {kind : TokenKind} {x y : Parse β} {o : Except SyntaxError β}
    (ht : t.kind = kind) (h : Runs x (t :: S) o U) :
    Runs (Parse.check kind >>= fun b => if b = true then x else y) (t :: S) o U := by
  refine bind (check kind) ?_
  simpa [ht] using h

theorem check_false {kind : TokenKind} {x y : Parse β} {o : Except SyntaxError β}
    (ht : t.kind ≠ kind) (h : Runs y (t :: S) o U) :
    Runs (Parse.check kind >>= fun b => if b = true then x else y) (t :: S) o U := by
  refine bind (check kind) ?_
  simpa [ht] using h

end Runs

end LogoSyntax.Parse

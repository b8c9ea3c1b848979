-- SUMMARY: The steps that the run of an action takes, and the rules by which composed actions take orderly steps and consume a token.
import LogoSyntax.Proofs.Reader.Runs
import LogoSyntax.Proofs.Reader.Steps

/-!
# Progress

`Takes act r steps` says which steps the run of an action on a reader takes, one after
another. Consuming a token takes it off the queue and in no case asks the cursor for one
instead, because the queue is never empty once it was filled (`Reader.queue_fill_ne_nil`).

`Proceeds must act S` says that on every reader with the pending tokens `S` the action
takes orderly steps, and that by the time it ends with a value of which `must` holds it has
consumed a token. The rules below follow the way in which actions are composed. An action
`Consumes` if it consumes a token whatever value it ends with.
-/

namespace LogoSyntax

/-- Once the queue was filled it is not empty. -/
theorem Reader.queue_fill_ne_nil (r : Reader) (n : Nat) : (r.fill n).queue ≠ [] := by
  intro hnil
  have hreach := (fill_spec r n).2
  simp [reaches_eq, closed, hnil] at hreach

namespace Parse

open Reader

/-! ## The steps of a run -/

/-- The reader that an action leaves, whatever it ends with. -/
def leave {α : Type} (act : Parse α) (r : Reader) : Reader :=
  match act r with
  | .ok _ s => s
  | .error _ s => s

theorem leave_of_ok {α : Type} {act : Parse α} {r s : Reader} {a : α} (h : act r = .ok a s) :
    leave act r = s := by
  rw [leave, h]

theorem leave_of_error {α : Type} {act : Parse α} {r s : Reader} {e : Halt}
    (h : act r = .error e s) : leave act r = s := by
  rw [leave, h]

/-- The run of the action on the reader takes the steps, one after another. -/
inductive Takes : {α : Type} → Parse α → Reader → List Step → Prop where
  | pure {α : Type} (a : α) (r : Reader) : Takes (Pure.pure a : Parse α) r []
  | throw {α : Type} (e : Halt) (r : Reader) : Takes (throw e : Parse α) r []
  | peekNth (n : Nat) (r : Reader) : Takes (Parse.peekNth n) r (r.pulls n)
  | advance (r : Reader) : Takes Parse.advance r (r.pulls 0 ++ [.pop])
  | record (entry : Log.Record) (r : Reader) : Takes (Parse.record entry) r [.note entry]
  | bind {α β : Type} {x : Parse α} {k : α → Parse β} {r s : Reader} {a : α}
      {steps more : List Step} (hx : Takes x r steps) (hs : x r = .ok a s)
      (hk : Takes (k a) s more) : Takes (x >>= k) r (steps ++ more)
  | bind_error {α β : Type} {x : Parse α} {k : α → Parse β} {r s : Reader} {e : Halt}
      {steps : List Step} (hx : Takes x r steps) (hs : x r = .error e s) : Takes (x >>= k) r steps

theorem bind_of_ok {α β : Type} {x : Parse α} {k : α → Parse β} {r s : Reader} {a : α}
    (h : x r = .ok a s) : (x >>= k) r = k a s := by
  change EStateM.bind x k r = _
  rw [EStateM.bind, h]

theorem bind_of_error {α β : Type} {x : Parse α} {k : α → Parse β} {r s : Reader} {e : Halt}
    (h : x r = .error e s) : (x >>= k) r = .error e s := by
  change EStateM.bind x k r = _
  rw [EStateM.bind, h]

/-- Consuming takes the first token of the queue, which has one once it was filled. -/
theorem advance_eq (r : Reader) :
    ∃ t rest, (r.fill 0).queue = t :: rest ∧
      Parse.advance r = .ok t { r.fill 0 with queue := rest } := by
  obtain ⟨t, rest, hq⟩ := List.exists_cons_of_ne_nil (r.queue_fill_ne_nil 0)
  exact ⟨t, rest, hq, by simp [Parse.advance, hq]⟩

/-- The steps of a run lead to the reader that the action leaves. -/
theorem Takes.walk {α : Type} {act : Parse α} {r : Reader} {steps : List Step}
    (h : Takes act r steps) : r.walk steps = leave act r := by
  induction h with
  | pure | throw | record => rfl
  | peekNth n r => exact walk_pulls r n
  | advance r =>
    obtain ⟨t, rest, hq, hadvance⟩ := advance_eq r
    rw [walk_append, walk_pulls, leave_of_ok hadvance]
    simp [Reader.walk, Step.next, hq]
  | @bind α β x k r s a steps more hx hs hk ihx ihk =>
    have hstop : r.walk steps = s := by rw [ihx, leave_of_ok hs]
    rw [walk_append, hstop, ihk, leave, leave, bind_of_ok hs]
  | bind_error hx hs ihx =>
    rw [ihx, leave_of_error hs, leave_of_error (bind_of_error hs)]

theorem Takes.walk_of_ok {α : Type} {act : Parse α} {r s : Reader} {a : α} {steps : List Step}
    (h : Takes act r steps) (hs : act r = .ok a s) : r.walk steps = s := by
  rw [h.walk, leave_of_ok hs]

/-! ## Proceeding -/

/-- On every reader with the pending tokens `S` the action takes orderly steps, and it
    consumes a token if it ends with a value of which `must` holds. -/
def Proceeds {α : Type} (must : α → Prop) (act : Parse α) (S : List Token) : Prop :=
  ∀ r : Reader, r.pending = S → ∃ steps, Takes act r steps ∧ r.Orderly steps ∧
    ∀ a s, act r = .ok a s → must a → .pop ∈ steps

/-- On every reader with the pending tokens `S` the action takes orderly steps, and it
    consumes a token if it ends with a value. -/
def Consumes {α : Type} (act : Parse α) (S : List Token) : Prop :=
  Proceeds (fun _ => True) act S

/-- On every reader with the pending tokens `S` the action takes orderly steps. -/
def Keeps {α : Type} (act : Parse α) (S : List Token) : Prop :=
  Proceeds (fun _ => False) act S

section Rules

variable {α β : Type} {must must' : α → Prop} {goal : β → Prop} {act : Parse α} {x : Parse α}
  {k : α → Parse β} {S : List Token}

theorem Proceeds.mono (hmust : ∀ a, must' a → must a) (h : Proceeds must act S) :
    Proceeds must' act S := by
  intro r hr
  obtain ⟨steps, htakes, horderly, hpop⟩ := h r hr
  exact ⟨steps, htakes, horderly, fun a s ha hm => hpop a s ha (hmust a hm)⟩

theorem Consumes.proceeds (h : Consumes act S) : Proceeds must act S :=
  h.mono fun _ _ => trivial

theorem Consumes.keeps (h : Consumes act S) : Keeps act S :=
  h.proceeds

theorem Proceeds.pure {a : α} (ha : ¬ must a) : Proceeds must (Pure.pure a) S := by
  refine fun r _ => ⟨[], .pure a r, trivial, fun b s hb hm => ?_⟩
  cases hb
  exact absurd hm ha

theorem Keeps.pure (a : α) : Keeps (Pure.pure a) S :=
  Proceeds.pure id

theorem Keeps.record (entry : Log.Record) : Keeps (Parse.record entry) S :=
  fun r _ => ⟨_, .record entry r, ⟨trivial, trivial⟩, fun _ _ _ h => h.elim⟩

theorem Keeps.peekNth {n : Nat} (hn : n ≤ 1) : Keeps (Parse.peekNth n) S :=
  fun r _ => ⟨_, .peekNth n r, orderly_pulls hn r, fun _ _ _ h => h.elim⟩

theorem Consumes.throw (e : Halt) : Consumes (throw e : Parse α) S :=
  fun r _ => ⟨[], .throw e r, trivial, fun _ _ h => by cases h⟩

theorem Consumes.outOfFuel : Consumes (Parse.outOfFuel : Parse α) S :=
  .throw _

/-- A matched token in front is consumed. -/
theorem Consumes.advance {t : Token} {ts : List Token} (h : Stream (t :: ts))
    (hk : t.kind.isEnd = false) : Consumes Parse.advance (t :: ts) := by
  intro r hr
  obtain ⟨rest, hq⟩ := queue_fill hr
  have hpop : Step.pop.Orderly (r.fill 0) := ⟨t, rest, hq, (h.tail hk).1.matched⟩
  refine ⟨_, .advance r, orderly_append.2 ⟨orderly_pulls (by omega) r, ?_⟩, fun _ _ _ _ => ?_⟩
  · rw [walk_pulls]
    exact ⟨hpop, trivial⟩
  · exact List.mem_append_right _ (List.mem_singleton.2 rfl)

/-- One action after another, one of which consumes a token if it has to. -/
theorem Proceeds.bind_of (hS : Stream S) (hx : Proceeds must x S)
    (hk : ∀ a T, Stream T → Proceeds (fun b => goal b ∧ ¬ must a) (k a) T) :
    Proceeds goal (x >>= k) S := by
  intro r hr
  obtain ⟨steps, htakes, horderly, hpop⟩ := hx r hr
  cases hs : x r with
  | error e s =>
    refine ⟨steps, .bind_error htakes hs, horderly, fun b s' hb => ?_⟩
    rw [bind_of_error hs] at hb
    cases hb
  | ok a s =>
    have hwalk : r.walk steps = s := htakes.walk_of_ok hs
    have hstream : Stream s.pending := hwalk ▸ horderly.stream (hr ▸ hS)
    obtain ⟨more, htakes', horderly', hpop'⟩ := hk a s.pending hstream s rfl
    refine ⟨steps ++ more, .bind htakes hs htakes', orderly_append.2 ⟨horderly, hwalk ▸ horderly'⟩,
      fun b s' hb hgoal => ?_⟩
    rw [bind_of_ok hs] at hb
    by_cases hm : must a
    · exact List.mem_append_left _ (hpop a s hs hm)
    · exact List.mem_append_right _ (hpop' b s' hb ⟨hgoal, hm⟩)

/-- An action that consumes a token, and another one behind it. -/
theorem Consumes.bind (hS : Stream S) (hx : Consumes x S) (hk : ∀ a T, Stream T → Keeps (k a) T) :
    Proceeds goal (x >>= k) S :=
  Proceeds.bind_of hS hx fun a T hT => (hk a T hT).mono fun _ h => h.2 trivial

/-- An action, and another one behind it that consumes a token if it has to. -/
theorem Keeps.bind (hS : Stream S) (hx : Keeps x S)
    (hk : ∀ a T, Stream T → Proceeds goal (k a) T) : Proceeds goal (x >>= k) S :=
  Proceeds.bind_of hS hx fun a T hT => (hk a T hT).mono fun _ h => h.1

theorem Proceeds.ite {y : Parse α} (b : Bool) (hx : Proceeds must x S) (hy : Proceeds must y S) :
    Proceeds must (if b = true then x else y) S := by
  cases b with
  | true => exact hx
  | false => exact hy

/-! ## Branching on the next token -/

/-- An action that depends on the next token. -/
theorem Proceeds.peek_bind {k : Token → Parse β} (hS : Stream S)
    (hk : ∀ t ts, S = t :: ts → Proceeds goal (k t) S) : Proceeds goal (Parse.peek >>= k) S := by
  intro r hr
  obtain ⟨t, ts, rfl⟩ := List.exists_cons_of_ne_nil hS.ne_nil
  obtain ⟨s, hs, hpending⟩ := Runs.peek r hr
  obtain ⟨more, htakes, horderly, hpop⟩ := hk t ts rfl s hpending
  have hpeek : Takes Parse.peek r (r.pulls 0) := .peekNth 0 r
  have hwalk := hpeek.walk_of_ok hs
  refine ⟨r.pulls 0 ++ more, .bind hpeek hs htakes,
    orderly_append.2 ⟨orderly_pulls (by omega) r, hwalk ▸ horderly⟩, fun b s' hb hgoal => ?_⟩
  rw [bind_of_ok hs] at hb
  exact List.mem_append_right _ (hpop b s' hb hgoal)

/-- An action that depends on the kind of the next token. -/
theorem Proceeds.check_ite {kind : TokenKind} {x y : Parse β} (hS : Stream S)
    (hx : ∀ t ts, S = t :: ts → t.kind = kind → Proceeds goal x S)
    (hy : Proceeds goal y S) :
    Proceeds goal (Parse.check kind >>= fun b => if b = true then x else y) S := by
  have hbranch : Proceeds goal (Parse.peek >>= fun t => if (t.kind == kind) = true then x else y)
      S := by
    refine .peek_bind hS fun t ts hts => ?_
    by_cases ht : t.kind = kind
    · simpa [ht] using hx t ts hts ht
    · simpa [ht] using hy
  exact hbranch

theorem Consumes.unexpected (hS : Stream S) (production : String) (expected : Expected) :
    Consumes (Parse.unexpected production expected : Parse α) S :=
  Proceeds.peek_bind hS fun _ _ _ =>
    Keeps.bind hS (.record _) fun _ _ _ => Consumes.throw _

/-- Insisting on a token that some shape fits. -/
theorem Consumes.expect {kind : TokenKind} (hS : Stream S) (hk : kind.isEnd = false)
    (production : String) : Consumes (Parse.expect kind production) S := by
  refine Proceeds.check_ite hS (fun t ts hts ht => ?_) (Consumes.unexpected hS _ _)
  subst hts
  exact Consumes.advance hS (by rwa [ht])

end Rules

/-! ## Reachable readers -/

/-- From a reachable reader the action leads to a reachable one, whatever it ends with. The
    tokens that it consumed on the way are those in front of the ones that are left pending. -/
theorem Proceeds.leave {α : Type} {must : α → Prop} {act : Parse α} {source : String} {r : Reader}
    (hr : r.Reachable source) (h : Proceeds must act r.pending) :
    (leave act r).Reachable source ∧
      ∃ us, r.pending = us ++ (Parse.leave act r).pending ∧ (∀ t ∈ us, t.Classified) ∧
        ∀ a s, act r = .ok a s → must a → us ≠ [] := by
  obtain ⟨steps, htakes, horderly, hpop⟩ := h r rfl
  rw [← htakes.walk]
  have hreach := hr.walk horderly
  have hsplit := horderly.consumed_append_pending
  refine ⟨hreach, r.consumed steps, hsplit.symm, ?_, fun a s hs hm =>
    horderly.consumed_ne_nil (hpop a s hs hm)⟩
  exact ((hsplit.symm ▸ hr.stream : Stream (_ ++ _)).split hreach.stream.ne_nil).1

end Parse

end LogoSyntax

-- SUMMARY: Which records reading and parsing emit, and that the log they are written to decides about nothing but itself.
import LogoSyntax.Proofs.Grammar.Consumption

/-!
# Emission

A cursor that reads to the end of a source emits records as it moves, and each of them is
written to the log or not when it is emitted (`Cursor.logTo_eq`).

Each step on a reader emits some records, and they are written to the log of the reader
as they are emitted. What a step emits is read off the cursor and the step, so it is the
same on every log, and the log makes no difference to what the step does otherwise
(`Step.next_withLog`).

The same is true of steps one after another (`walk_withLog`) and of every action that is
put together from them (`Parse.Takes.withLog`). A parse on one log therefore differs from
a parse on another log in the log alone (`parse_withLog`).
-/

namespace LogoSyntax

namespace Cursor

open Log (Record Writer)

/-! ## Reading to the end -/

/-- The records that reading to the end emits, the earliest first. -/
def emitted (c : Cursor) : List Record :=
  c.visited.filterMap record?

theorem emitted_of_matched {c : Cursor} (h : c.token.matched = true) :
    c.emitted = c.record?.toList ++ c.advance.emitted := by
  unfold emitted
  rw [visited, dif_pos h, List.filterMap_cons]
  cases c.record? <;> rfl

theorem emitted_of_not_matched {c : Cursor} (h : ¬ c.token.matched = true) :
    c.emitted = c.record?.toList := by
  unfold emitted
  rw [visited, dif_neg h, List.filterMap_cons]
  cases c.record? <;> rfl

/-- Reading to the end writes what it emits to the log. -/
theorem logTo_eq (c : Cursor) (w : Writer) : c.logTo w = w.writeAll c.emitted := by
  fun_induction Cursor.logTo c w with
  | case1 c w log h ih => rw [ih, emitted_of_matched h, Writer.writeAll_append]
  | case2 c w log h => rw [emitted_of_not_matched h]

end Cursor

namespace Reader

open Log (Record Writer)

@[simp] theorem queue_withLog (r : Reader) (w : Writer) : (r.withLog w).queue = r.queue := rfl

@[simp] theorem ahead_withLog (r : Reader) (w : Writer) (n : Nat) :
    (r.withLog w).ahead n = r.ahead n := rfl

/-! ## Single steps -/

/-- The records that a step emits, the earliest first. -/
def Step.emitted : Step → Reader → List Record
  | pull, r => r.cursor.record?.toList
  | pop, _ => []
  | note entry, _ => [entry]

theorem Step.emitted_withLog (step : Step) (r : Reader) (w : Writer) :
    step.emitted (r.withLog w) = step.emitted r := by
  cases step <;> rfl

/-- A step writes what it emits to the log, and does the same on every log otherwise. -/
theorem Step.next_withLog (step : Step) (r : Reader) (w : Writer) :
    step.next (r.withLog w) = (step.next r).withLog (w.writeAll (step.emitted r)) := by
  cases step with
  | pull => rfl
  | pop => rfl
  | note entry => rfl

/-! ## Steps one after another -/

/-- The records that some steps emit, the earliest first. -/
def emitted (r : Reader) : List Step → List Record
  | [] => []
  | step :: steps => step.emitted r ++ (step.next r).emitted steps

theorem emitted_append (r : Reader) (steps more : List Step) :
    r.emitted (steps ++ more) = r.emitted steps ++ (r.walk steps).emitted more := by
  induction steps generalizing r with
  | nil => rfl
  | cons step steps ih =>
    simp only [List.cons_append, emitted, walk, ih, List.append_assoc]

theorem emitted_withLog (r : Reader) (w : Writer) (steps : List Step) :
    (r.withLog w).emitted steps = r.emitted steps := by
  induction steps generalizing r w with
  | nil => rfl
  | cons step steps ih =>
    rw [emitted, emitted, step.emitted_withLog, step.next_withLog, ih]

/-- Steps write what they emit to the log, and do the same on every log otherwise. -/
theorem walk_withLog (r : Reader) (w : Writer) (steps : List Step) :
    (r.withLog w).walk steps = (r.walk steps).withLog (w.writeAll (r.emitted steps)) := by
  induction steps generalizing r w with
  | nil => rfl
  | cons step steps ih =>
    rw [walk, walk, emitted, step.next_withLog, ih, Writer.writeAll_append]

/-- The queue is filled in the same steps on every log. -/
theorem pulls_withLog (r : Reader) (w : Writer) (n : Nat) :
    (r.withLog w).pulls n = r.pulls n := by
  fun_induction Reader.pulls r n generalizing w with
  | case1 r h =>
    rw [pulls, if_pos (by exact h)]
  | case2 r h hm ih =>
    rw [pulls, if_neg (by exact h), dif_pos (by exact hm)]
    exact congrArg (List.cons Step.pull) (ih _)
  | case3 r h hm =>
    rw [pulls, if_neg (by exact h), dif_neg (by exact hm)]

theorem fill_withLog (r : Reader) (w : Writer) (n : Nat) :
    (r.withLog w).fill n = (r.fill n).withLog (w.writeAll (r.emitted (r.pulls n))) := by
  rw [← walk_pulls, ← walk_pulls, pulls_withLog, walk_withLog]

end Reader

/-! ## Actions -/

namespace Parse

open Reader
open Log (Writer)

/-- What an action ends with, on another log. -/
def onLog {α : Type} (w : Writer) :
    EStateM.Result Halt Reader α → EStateM.Result Halt Reader α
  | .ok a r => .ok a (r.withLog w)
  | .error e r => .error e (r.withLog w)

/-- An action writes what its steps emit to the log, and does the same on every log
    otherwise. -/
theorem Takes.withLog {α : Type} {act : Parse α} {r : Reader} {steps : List Step}
    (h : Takes act r steps) (w : Writer) :
    act (r.withLog w) = onLog (w.writeAll (r.emitted steps)) (act r) := by
  induction h generalizing w with
  | pure | throw | record => rfl
  | peekNth n r =>
    unfold Parse.peekNth
    simp only [fill_withLog, onLog, ahead_withLog]
  | advance r =>
    obtain ⟨t, rest, hq, hadvance⟩ := advance_eq r
    rw [hadvance, emitted_append, Writer.writeAll_append]
    simp only [Parse.advance, fill_withLog, queue_withLog, hq]
    rfl
  | @bind α β x k r s a steps more hx hs hk ihx ihk =>
    have hstop : r.walk steps = s := hx.walk_of_ok hs
    have hfirst : x (r.withLog w) = .ok a (s.withLog (w.writeAll (r.emitted steps))) := by
      rw [ihx, hs, onLog]
    rw [bind_of_ok hfirst, bind_of_ok hs, ihk, emitted_append, hstop, Writer.writeAll_append]
  | @bind_error α β x k r s e steps hx hs ihx =>
    have hfirst : x (r.withLog w) = .error e (s.withLog (w.writeAll (r.emitted steps))) := by
      rw [ihx, hs, onLog]
    rw [bind_of_error hfirst, bind_of_error hs, onLog]

end Parse

/-! ## Programs -/

namespace Reader

open Parse
open Log (Record Writer)

/-- Parsing from the reader emits the records, the earliest first. -/
def ParseEmits (r : Reader) (records : List Record) : Prop :=
  ∃ steps, Takes (Grammar.program r.fuel) r steps ∧ r.emitted steps = records

/-- Parsing is done in steps, so it emits some records. -/
theorem exists_parseEmits {r : Reader} (hr : Stream r.pending) :
    ∃ records, r.ParseEmits records := by
  obtain ⟨steps, htakes, -⟩ := program_keeps r.fuel hr r rfl
  exact ⟨_, steps, htakes, rfl⟩

/-- Parsing writes what it emits to the log, and comes to the same on every log. -/
theorem ParseEmits.parse_withLog {r : Reader} {records : List Record} (h : r.ParseEmits records)
    (w : Writer) :
    (r.withLog w).parse = (r.parse.1, r.parse.2.withLog (w.writeAll records)) := by
  obtain ⟨steps, htakes, rfl⟩ := h
  have hprogram := htakes.withLog w
  change Grammar.program (r.withLog w).fuel (r.withLog w) = _ at hprogram
  rw [parse, parse, hprogram]
  cases Grammar.program r.fuel r <;> rfl

/-- Parsing emits one list of records, which is what a log without limits holds behind it. -/
theorem ParseEmits.unique {r : Reader} {records records' : List Record} (h : r.ParseEmits records)
    (h' : r.ParseEmits records') : records = records' := by
  have hheld : ∀ {rs : List Record}, r.ParseEmits rs →
      (r.withLog (.ofFilter (.upTo .trace))).parse.2.log.records = rs := by
    intro rs hrs
    rw [hrs.parse_withLog]
    exact Writer.records_writeAll_trace rs
  exact (hheld h).symm.trans (hheld h')

/-- Whatever the log, a source is parsed to the same result. -/
theorem result_withLog (source : String) (w : Writer) :
    ((ofSource source).withLog w).parse.1 = LogoSyntax.parse source := by
  obtain ⟨records, hemits⟩ := exists_parseEmits (Reachable.ofSource source).stream
  rw [hemits.parse_withLog]
  rfl

end Reader

end LogoSyntax

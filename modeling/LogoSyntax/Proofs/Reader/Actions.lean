-- SUMMARY: Actions that are put together from the primitive ones end in no other errors than those they name.
import LogoSyntax.Reader

/-!
# Composed actions

`Composed P act` says that an action is put together from the primitive actions on
a reader, and that `P` holds of each pair of a production and an expectation with
which it refuses a token. An action ends in no other syntax errors than those it
refuses a token with (`Composed.diagnosis`).
-/

namespace LogoSyntax

namespace Parse

/-! ## Composed actions -/

/-- The action is put together from the primitive actions, and refuses tokens with
    productions and expectations of which `P` holds. -/
inductive Composed (P : String → Expected → Prop) : {α : Type} → Parse α → Prop where
  | pure {α : Type} (a : α) : Composed P (Pure.pure a : Parse α)
  | bind {α β : Type} {x : Parse α} {k : α → Parse β} (hx : Composed P x)
      (hk : ∀ a, Composed P (k a)) : Composed P (x >>= k)
  | peekNth (n : Nat) : Composed P (Parse.peekNth n)
  | advance : Composed P Parse.advance
  | record (entry : Log.Record) : Composed P (Parse.record entry)
  | unexpected {α : Type} {production : String} {expected : Expected}
      (h : P production expected) : Composed P (Parse.unexpected production expected : Parse α)
  | outOfFuel {α : Type} : Composed P (Parse.outOfFuel : Parse α)

namespace Composed

variable {P : String → Expected → Prop} {α : Type} {act x y : Parse α}

theorem peek : Composed P Parse.peek :=
  .peekNth 0

theorem check (kind : TokenKind) : Composed P (Parse.check kind) :=
  .bind .peek fun _ => .pure _

theorem ite (c : Prop) [Decidable c] (hx : Composed P x) (hy : Composed P y) :
    Composed P (if c then x else y) := by
  split
  · exact hx
  · exact hy

theorem expect {kind : TokenKind} {production : String} (h : P production (.token kind)) :
    Composed P (Parse.expect kind production) :=
  .bind (.check kind) fun _ => .ite _ .advance (.unexpected h)

/-- An action ends in no other syntax errors than those it refuses a token with. -/
theorem diagnosis (h : Composed P act) {r s : Reader} {e : SyntaxError}
    (he : act r = .error (.syntaxError e) s) : P e.production e.expected := by
  induction h generalizing r s with
  | pure a => cases he
  | @bind α β x k _ _ ihx ihk =>
    change EStateM.bind x k r = _ at he
    rw [EStateM.bind] at he
    cases hr : x r with
    | ok a r' =>
      rw [hr] at he
      exact ihk a he
    | error e' r' =>
      rw [hr] at he
      cases he
      exact ihx hr
  | peekNth n => cases he
  | advance =>
    rw [Parse.advance] at he
    split at he <;> cases he
  | record entry => cases he
  | unexpected h =>
    change EStateM.Result.error _ _ = EStateM.Result.error _ _ at he
    cases he
    exact h
  | outOfFuel => cases he

end Composed

end Parse

end LogoSyntax

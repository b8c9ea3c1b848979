-- SUMMARY: The blank-separated components of a line, with their columns.
import LogoSyntax.Text.Blank

/-!
# Components

A component is a maximal run of characters that are not blank. Its column
counts characters, not bytes, and the first character of a line stands in
column one.

`components` reads the line once, from its end to its beginning: a character
that is not blank either extends the component that starts right after it or
forms a component of its own. The main facts are that every component is a
non-empty run without blanks (`Component.sound_of_mem`) and that the components
together hold exactly the characters of the line that are not blank
(`Component.flatMap_chars_components`).
-/

namespace LogoSyntax

/-- A maximal run of characters that are not blank, and the column it starts in. -/
structure Component where
  col : Nat
  chars : List Char
deriving DecidableEq, Repr

namespace Component

/-- The run as a text. -/
def text (w : Component) : String :=
  String.ofList w.chars

/-- The column just past the run. -/
def endCol (w : Component) : Nat :=
  w.col + w.chars.length

/-- The run is not empty and holds no blank character. -/
def Sound (w : Component) : Prop :=
  w.chars ≠ [] ∧ ∀ c ∈ w.chars, Text.isBlank c = false

/-- Puts a character that is not blank in front of the components that follow
    it. It extends the first of them when that one starts right behind it. -/
def consChar (col : Nat) (c : Char) : List Component → List Component
  | [] => [⟨col, [c]⟩]
  | w :: ws => if w.col = col + 1 then ⟨col, c :: w.chars⟩ :: ws else ⟨col, [c]⟩ :: w :: ws

end Component

/-- The components of a text whose first character stands in column `col`. -/
def componentsFrom (col : Nat) : List Char → List Component
  | [] => []
  | c :: cs =>
    if Text.isBlank c then componentsFrom (col + 1) cs
    else Component.consChar col c (componentsFrom (col + 1) cs)

/-- The components of a line. -/
def components (line : List Char) : List Component :=
  componentsFrom 1 line

namespace Component

theorem sound_of_mem {col : Nat} {cs : List Char} {w : Component}
    (h : w ∈ componentsFrom col cs) : w.Sound := by
  induction cs generalizing col w with
  | nil => simp [componentsFrom] at h
  | cons c cs ih =>
    rw [componentsFrom] at h
    split at h
    · exact ih h
    · next hc =>
      have hc : Text.isBlank c = false := by simpa using hc
      cases hr : componentsFrom (col + 1) cs with
      | nil =>
        rw [hr] at h
        simp only [consChar, List.mem_singleton] at h
        subst h
        exact ⟨by simp, by simp [hc]⟩
      | cons v vs =>
        rw [hr, consChar] at h
        have hv : v.Sound := ih (hr ▸ List.mem_cons_self)
        split at h
        · rcases List.mem_cons.1 h with rfl | h
          · exact ⟨by simp, by
              intro d hd
              rcases List.mem_cons.1 hd with rfl | hd
              · exact hc
              · exact hv.2 d hd⟩
          · exact ih (hr ▸ List.mem_cons_of_mem v h)
        · rcases List.mem_cons.1 h with rfl | h
          · exact ⟨by simp, by simp [hc]⟩
          · exact ih (hr ▸ h)

@[simp] theorem flatMap_consChar (col : Nat) (c : Char) (ws : List Component) :
    (consChar col c ws).flatMap chars = c :: ws.flatMap chars := by
  cases ws with
  | nil => rfl
  | cons w ws =>
    rw [consChar]
    split <;> simp

/-- The components hold the characters of the text that are not blank, in order. -/
theorem flatMap_chars_components (col : Nat) (cs : List Char) :
    (componentsFrom col cs).flatMap chars = cs.filter (fun c => !Text.isBlank c) := by
  induction cs generalizing col with
  | nil => rfl
  | cons c cs ih =>
    rw [componentsFrom, List.filter_cons]
    split <;> simp_all

end Component

end LogoSyntax

-- SUMMARY: Texts that are told from what stands behind them: up to a boundary, numbers, and coded characters.
import Mathlib

/-!
# Boundaries

What a writer writes stands in front of more text. It can be told from that text if the
text begins with a character that it does not have (`append_inj_of_all`), as a number in
front of anything but a digit (`repr_append_inj`). A text in quotes may have any character
in it, but the characters are coded: each one can be read back, and none is written like
the closing quote (`Legible.append_inj`).
-/

namespace LogoSyntax.Text

/-! ## Runs of characters -/

/-- A text is told from what stands behind it if its characters have a property that the
    character behind it does not have. -/
theorem append_inj_of_all {p : Char → Bool} {cs ds rest rest' : List Char}
    (hcs : ∀ c ∈ cs, p c = true) (hds : ∀ d ∈ ds, p d = true)
    (hrest : ∀ c ∈ rest.head?, p c = false) (hrest' : ∀ c ∈ rest'.head?, p c = false)
    (h : cs ++ rest = ds ++ rest') : cs = ds ∧ rest = rest' := by
  have hfront : ∀ {es more : List Char}, (∀ e ∈ es, p e = true) →
      (∀ e ∈ more.head?, p e = false) → (es ++ more).takeWhile p = es := by
    intro es more hes hmore
    rw [List.takeWhile_append_of_pos hes]
    cases more with
    | nil => simp
    | cons d more => simp [hmore d rfl]
  obtain rfl : cs = ds := by
    rw [← hfront hcs hrest, h, hfront hds hrest']
  exact ⟨rfl, List.append_cancel_left h⟩

/-- A text is told from what stands behind it if that begins with a character that the
    text does not have, unless it is empty. -/
theorem append_inj_of_notMem {c : Char} {cs ds rest rest' : List Char} (hcs : c ∉ cs)
    (hds : c ∉ ds) (hrest : ∀ d ∈ rest.head?, d = c) (hrest' : ∀ d ∈ rest'.head?, d = c)
    (h : cs ++ rest = ds ++ rest') : cs = ds ∧ rest = rest' := by
  have hne : ∀ {es : List Char}, c ∉ es → ∀ e ∈ es, decide (e ≠ c) = true := by
    intro es hes e he
    simpa using ne_of_mem_of_not_mem he hes
  have heq : ∀ {more : List Char}, (∀ d ∈ more.head?, d = c) →
      ∀ d ∈ more.head?, decide (d ≠ c) = false := by
    intro more hmore d hd
    simpa using hmore d hd
  exact append_inj_of_all (hne hcs) (hne hds) (heq hrest) (heq hrest') h

/-! ## Numbers -/

theorem isDigit_of_mem_repr {n : Nat} {c : Char} (h : c ∈ (Nat.repr n).toList) :
    c.isDigit = true := by
  rw [Nat.toList_repr] at h
  exact Nat.isDigit_of_mem_toDigits (by decide) (by decide) h

/-- Decimal digits are the only characters of a number. -/
theorem notMem_repr {c : Char} (h : c.isDigit = false) (n : Nat) : c ∉ (Nat.repr n).toList := by
  intro hc
  simp [isDigit_of_mem_repr hc] at h

/-- A number in decimal digits is told from what stands behind it if that is no digit. -/
theorem repr_append_inj {n m : Nat} {rest rest' : List Char}
    (hrest : ∀ c ∈ rest.head?, c.isDigit = false)
    (hrest' : ∀ c ∈ rest'.head?, c.isDigit = false)
    (h : (Nat.repr n).toList ++ rest = (Nat.repr m).toList ++ rest') : n = m ∧ rest = rest' := by
  obtain ⟨hdigits, hbehind⟩ := append_inj_of_all (fun _ => isDigit_of_mem_repr)
    (fun _ => isDigit_of_mem_repr) hrest hrest' h
  exact ⟨Nat.repr_inj.1 (String.toList_injective hdigits), hbehind⟩

/-! ## Coded characters -/

/-- Each character is read back from the way in which it is written, and none is written
    like the character that closes a text. -/
structure Legible (read : List Char → Option (Char × List Char)) (close : Char)
    (write : Char → List Char) : Prop where
  read_write : ∀ c rest, read (write c ++ rest) = some (c, rest)
  ne_close : ∀ c rest rest', write c ++ rest ≠ close :: rest'

/-- A closed text tells its characters and where it ends, and not in which of two legible
    ways they are written. -/
theorem Legible.append_inj {read : List Char → Option (Char × List Char)} {close : Char}
    {write write' : Char → List Char} (hw : Legible read close write)
    (hw' : Legible read close write') {cs ds rest rest' : List Char}
    (h : cs.flatMap write ++ close :: rest = ds.flatMap write' ++ close :: rest') :
    cs = ds ∧ rest = rest' := by
  induction cs generalizing ds with
  | nil =>
    cases ds with
    | nil => exact ⟨rfl, by simpa using h⟩
    | cons d ds =>
      rw [List.flatMap_cons, List.append_assoc] at h
      exact absurd h.symm (hw'.ne_close _ _ _)
  | cons c cs ih =>
    cases ds with
    | nil =>
      rw [List.flatMap_cons, List.append_assoc] at h
      exact absurd h (hw.ne_close _ _ _)
    | cons d ds =>
      rw [List.flatMap_cons, List.append_assoc, List.flatMap_cons, List.append_assoc] at h
      have hread := congrArg read h
      rw [hw.read_write, hw'.read_write] at hread
      obtain ⟨rfl, htail⟩ := Prod.mk.inj (Option.some.inj hread)
      obtain ⟨rfl, hrest⟩ := ih htail
      exact ⟨rfl, hrest⟩

end LogoSyntax.Text

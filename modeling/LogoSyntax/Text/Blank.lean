-- SUMMARY: Blank characters, trimming of blank ends, and the division of a text into lines.

/-!
# Blank text

A character is blank when Unicode counts it as white space. Trimming removes
blank characters from both ends of a text, and `lines` cuts a text at its line
feeds, where a carriage return directly before a line feed belongs to the cut.

The main facts are that trimming leaves no blank end (`trim_head`,
`trim_last`) and that a text without a line feed is one line
(`lines_of_not_mem`).
-/

namespace LogoSyntax.Text

/-- The characters that Unicode counts as white space. -/
def isBlank (c : Char) : Bool :=
  let n := c.toNat
  (9 ≤ n && n ≤ 13) || n == 0x20 || n == 0x85 || n == 0xA0 || n == 0x1680
    || (0x2000 ≤ n && n ≤ 0x200A) || n == 0x2028 || n == 0x2029 || n == 0x202F
    || n == 0x205F || n == 0x3000

/-- Whether a text holds nothing but blank characters. -/
def isBlankText (cs : List Char) : Bool :=
  cs.all isBlank

/-! ## Trimming -/

/-- Drops the blank characters at the front. -/
def trimLeft (cs : List Char) : List Char :=
  cs.dropWhile isBlank

/-- Drops the blank characters at the back. This is `List.rdropWhile isBlank`, which
    lists have in Mathlib alone. -/
def trimRight (cs : List Char) : List Char :=
  (cs.reverse.dropWhile isBlank).reverse

/-- Drops the blank characters at both ends. -/
def trim (cs : List Char) : List Char :=
  trimRight (trimLeft cs)

/-- What is left after dropping the blank characters at the back ends in none. -/
theorem trimRight_last {cs : List Char} {front : List Char} {c : Char}
    (h : trimRight cs = front ++ [c]) : isBlank c = false := by
  have hr : cs.reverse.dropWhile isBlank = c :: front.reverse := by
    simpa [trimRight] using congrArg List.reverse h
  simpa [hr] using List.head?_dropWhile_not isBlank cs.reverse

/-- A trimmed text ends in no blank character. -/
theorem trim_last {cs : List Char} {front : List Char} {c : Char}
    (h : trim cs = front ++ [c]) : isBlank c = false :=
  trimRight_last h

/-- A trimmed text begins with no blank character. -/
theorem trim_head {cs : List Char} {c : Char} {rest : List Char}
    (h : trim cs = c :: rest) : isBlank c = false := by
  obtain ⟨dropped, hd⟩ := List.dropWhile_suffix isBlank (l := (trimLeft cs).reverse)
  have hl : trimLeft cs = (c :: rest) ++ dropped.reverse := by
    have := congrArg List.reverse hd
    rw [List.reverse_append, List.reverse_reverse] at this
    rw [← this, ← h]
    rfl
  have hnot := List.head?_dropWhile_not isBlank cs
  rwa [← trimLeft, hl] at hnot

/-! ## Lines -/

/-- Puts a character in front of the first line. -/
def consLine (c : Char) : List (List Char) → List (List Char)
  | [] => [[c]]
  | line :: rest => (c :: line) :: rest

/-- Cuts a text at its line feeds, each together with a carriage return
    directly before it. The empty text is one empty line. -/
def lines : List Char → List (List Char)
  | [] => [[]]
  | '\n' :: cs => [] :: lines cs
  | '\r' :: '\n' :: cs => [] :: lines cs
  | c :: cs => consLine c (lines cs)

theorem lines_ne_nil (cs : List Char) : lines cs ≠ [] := by
  fun_induction lines cs with
  | case1 => simp
  | case2 => simp
  | case3 => simp
  | case4 c cs => cases h : lines cs <;> simp [consLine]

/-- A text without a line feed is its own only line. -/
theorem lines_of_not_mem {cs : List Char} (h : '\n' ∉ cs) : lines cs = [cs] := by
  fun_induction lines cs with
  | case1 => rfl
  | case2 => simp at h
  | case3 => simp at h
  | case4 c cs _ _ ih =>
    rw [ih (fun hm => h (List.mem_cons_of_mem c hm))]
    rfl

end LogoSyntax.Text

-- SUMMARY: The cursor by indices: every access to a line or to a component is checked, and none fails.
import LogoSyntax.Cursor

/-!
# The cursor by indices

A cursor can be kept as the list of all lines, the index of the current line, the
components of that line and the index of the next one. `next?` and `position?` are
what the cursor does in this form. An index that is out of bounds makes them fail.

`InBounds` is the invariant that rules this out. A cursor in bounds gives the token
of the cursor that it stands for, and moves on to a cursor in bounds (`next?_eq`),
so no state that can be reached fails (`Reachable.inBounds`).
-/

namespace LogoSyntax

/-! ## The three places of a cursor -/

namespace Cursor

variable {c : Cursor}

theorem token_of_component {w : Component} {ws : List Component} (h : c.ahead = w :: ws) :
    c.token = componentToken c.line w := by
  rw [token, h]

theorem advance_of_component {w : Component} {ws : List Component} (h : c.ahead = w :: ws) :
    c.advance = if (componentToken c.line w).matched = true then { c with ahead := ws } else c := by
  rw [advance, h, matched_componentToken]

theorem token_of_line_end {next : Line} {rest : List Line} (h : c.ahead = [])
    (hlater : c.later = next :: rest) : c.token = .marker .endOfLine true c.line c.endCol := by
  rw [token, h, hlater]

theorem advance_of_line_end {next : Line} {rest : List Line} (h : c.ahead = [])
    (hlater : c.later = next :: rest) :
    c.advance = ⟨c.line + 1, next.endCol, next.components, rest⟩ := by
  rw [advance, h, hlater]

theorem token_of_end (h : c.ahead = []) (hlater : c.later = []) :
    c.token = .marker .noMore false c.line c.endCol := by
  rw [token, h, hlater]

theorem advance_of_end (h : c.ahead = []) (hlater : c.later = []) : c.advance = c := by
  rw [advance, h, hlater]

end Cursor

/-! ## Indices -/

/-- A cursor that holds all lines of a source and indices into them, from zero. -/
structure IndexedCursor where
  lines : List (List Char)
  line : Nat
  /-- The components of the current line. -/
  components : List Component
  /-- The index of the next component, or their number at the end of the line. -/
  index : Nat

namespace IndexedCursor

/-! ## Checked accesses -/

/-- The cursor at the beginning of a line, if there is such a line. -/
def enter? (lines : List (List Char)) (line : Nat) : Option IndexedCursor := do
  let text ← lines[line]?
  return { lines, line, components := LogoSyntax.components text, index := 0 }

/-- The cursor at the beginning of a source, if that has a line. -/
def ofSource? (source : String) : Option IndexedCursor :=
  enter? (Text.lines (Text.trim source.toList)) 0

/-- The column just past the current line, if there is such a line. -/
def endCol? (c : IndexedCursor) : Option Nat :=
  c.lines[c.line]?.map (·.length + 1)

/-- The next token and the cursor past it if it is matched, as long as no index is
    out of bounds. -/
def next? (c : IndexedCursor) : Option (Token × IndexedCursor) :=
  if c.index = c.components.length then do
    let col ← c.endCol?
    if c.line + 1 = c.lines.length then return (.marker .noMore false (c.line + 1) col, c)
    else return (.marker .endOfLine true (c.line + 1) col, ← enter? c.lines (c.line + 1))
  else do
    let w ← c.components[c.index]?
    let t := Cursor.componentToken (c.line + 1) w
    return (t, if t.matched then { c with index := c.index + 1 } else c)

/-- The line and column of the next component, or of the end of the line, as long as
    no index is out of bounds. -/
def position? (c : IndexedCursor) : Option (Nat × Nat) :=
  match c.components[c.index]? with
  | some w => some (c.line + 1, w.col)
  | none => c.endCol?.map fun col => (c.line + 1, col)

/-- The cursors that reading a source leads to. -/
inductive Reachable (source : String) : IndexedCursor → Prop where
  | start {c : IndexedCursor} (h : ofSource? source = some c) : Reachable source c
  | step {c c' : IndexedCursor} {t : Token} (h : Reachable source c)
      (hnext : c.next? = some (t, c')) : Reachable source c'

/-! ## The invariant -/

/-- There is a current line, the components are those of that line, and the index is
    at most their number. -/
structure InBounds (c : IndexedCursor) : Prop where
  line_lt : c.line < c.lines.length
  components_eq : c.components = LogoSyntax.components c.lines[c.line]
  index_le : c.index ≤ c.components.length

/-- The cursor that the indices stand for. -/
def toCursor (c : IndexedCursor) : Cursor :=
  { line := c.line + 1
    endCol := c.endCol?.getD 1
    ahead := c.components.drop c.index
    later := (c.lines.drop (c.line + 1)).map Line.ofChars }

namespace InBounds

variable {c : IndexedCursor}

theorem endCol?_eq (h : c.InBounds) : c.endCol? = some c.toCursor.endCol := by
  simp [toCursor, endCol?, h.line_lt]

/-- At the end of a line, no component is ahead. -/
theorem ahead_eq_nil (hindex : c.index = c.components.length) : c.toCursor.ahead = [] := by
  simp [toCursor, hindex]

/-- In front of the end of a line, the index is that of a component. -/
theorem exists_ahead_eq_cons (h : c.InBounds) (hindex : c.index ≠ c.components.length) :
    ∃ w, c.components[c.index]? = some w ∧
      c.toCursor.ahead = w :: c.components.drop (c.index + 1) := by
  have hlt : c.index < c.components.length := Nat.lt_of_le_of_ne h.index_le hindex
  exact ⟨c.components[c.index], List.getElem?_eq_getElem hlt, List.drop_eq_getElem_cons hlt⟩

end InBounds

/-- Entering a line that exists leads to a cursor in bounds. -/
theorem enter?_eq {lines : List (List Char)} {line : Nat} (h : line < lines.length) :
    ∃ c, enter? lines line = some c ∧ c.InBounds ∧
      c.toCursor = ⟨line + 1, lines[line].length + 1, LogoSyntax.components lines[line],
        (lines.drop (line + 1)).map Line.ofChars⟩ := by
  have htext : lines[line]? = some lines[line] := List.getElem?_eq_getElem h
  refine ⟨⟨lines, line, LogoSyntax.components lines[line], 0⟩, by rw [enter?, htext]; rfl,
    ⟨h, rfl, Nat.zero_le _⟩, ?_⟩
  simp [toCursor, endCol?, htext]

/-- A cursor in bounds gives the token of the cursor that it stands for, and moves on
    to a cursor in bounds. -/
theorem InBounds.next?_eq {c : IndexedCursor} (h : c.InBounds) :
    ∃ c', c.next? = some (c.toCursor.token, c') ∧ c'.InBounds ∧
      c'.toCursor = c.toCursor.advance := by
  by_cases hindex : c.index = c.components.length
  · have hahead := ahead_eq_nil hindex
    rw [next?, if_pos hindex, h.endCol?_eq, Option.bind_eq_bind, Option.bind_some]
    by_cases hlast : c.line + 1 = c.lines.length
    · have hlater : c.toCursor.later = [] := by simp [toCursor, hlast]
      rw [Cursor.token_of_end hahead hlater, Cursor.advance_of_end hahead hlater]
      exact ⟨c, by rw [if_pos hlast]; rfl, h, rfl⟩
    · have hlt : c.line + 1 < c.lines.length := Nat.lt_of_le_of_ne h.line_lt hlast
      have hlater : c.toCursor.later = Line.ofChars c.lines[c.line + 1] ::
          (c.lines.drop (c.line + 1 + 1)).map Line.ofChars := by
        rw [toCursor, List.drop_eq_getElem_cons hlt, List.map_cons]
      obtain ⟨c', henter, hbounds, hcursor⟩ := enter?_eq hlt
      rw [Cursor.token_of_line_end hahead hlater, Cursor.advance_of_line_end hahead hlater]
      exact ⟨c', by rw [if_neg hlast, henter]; rfl, hbounds, hcursor⟩
  · obtain ⟨w, hw, hahead⟩ := h.exists_ahead_eq_cons hindex
    have hlt : c.index < c.components.length := Nat.lt_of_le_of_ne h.index_le hindex
    rw [next?, if_neg hindex, hw, Cursor.token_of_component hahead,
      Cursor.advance_of_component hahead]
    refine ⟨_, rfl, ?_, ?_⟩
    · split
      · exact ⟨h.line_lt, h.components_eq, hlt⟩
      · exact h
    · change toCursor (ite _ _ _) = ite ((Cursor.componentToken (c.line + 1) w).matched = true) _ _
      rw [apply_ite toCursor]
      rfl

/-- A cursor in bounds stands in the position of the cursor that it stands for. -/
theorem InBounds.position?_eq {c : IndexedCursor} (h : c.InBounds) :
    c.position? = some c.toCursor.position := by
  by_cases hindex : c.index = c.components.length
  · have hnone : c.components[c.index]? = none := by simp [hindex]
    rw [position?, hnone, h.endCol?_eq, Cursor.position, ahead_eq_nil hindex]
    rfl
  · obtain ⟨w, hw, hahead⟩ := h.exists_ahead_eq_cons hindex
    rw [position?, hw, Cursor.position, hahead]
    rfl

/-! ## Reading a source -/

theorem ofSource?_eq (source : String) :
    ∃ c, ofSource? source = some c ∧ c.InBounds ∧ c.toCursor = Cursor.ofSource source := by
  have hne := Text.lines_ne_nil (Text.trim source.toList)
  rw [ofSource?, Cursor.ofSource, sourceLines]
  generalize Text.lines (Text.trim source.toList) = lines at hne
  obtain ⟨first, rest, rfl⟩ := List.exists_cons_of_ne_nil hne
  exact enter?_eq (Nat.zero_lt_succ _)

/-- No index is out of bounds in a cursor that reading a source leads to. -/
theorem Reachable.inBounds {source : String} {c : IndexedCursor} (h : c.Reachable source) :
    c.InBounds := by
  induction h with
  | start h =>
    obtain ⟨c, hc, hbounds, -⟩ := ofSource?_eq source
    obtain rfl := Option.some.inj (h.symm.trans hc)
    exact hbounds
  | step _ hnext ih =>
    obtain ⟨c', hc', hbounds, -⟩ := ih.next?_eq
    obtain ⟨-, rfl⟩ := Prod.mk.inj (Option.some.inj (hnext.symm.trans hc'))
    exact hbounds

/-- Where a cursor is reachable by indices, the cursor behind it is too. -/
theorem Reachable.exists_advance {source : String} {c : IndexedCursor} (h : c.Reachable source) :
    ∃ c' : IndexedCursor, c'.Reachable source ∧ c'.toCursor = c.toCursor.advance := by
  obtain ⟨c', hnext, -, hcursor⟩ := h.inBounds.next?_eq
  exact ⟨c', .step h hnext, hcursor⟩

end IndexedCursor

end LogoSyntax

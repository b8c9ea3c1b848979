-- SUMMARY: Texts laid out as lines of words, and what trimming, cutting into lines and finding components make of them.
import Mathlib.Data.List.DropRight
import LogoSyntax.Text.Component

/-!
# Layout

A word is a run of characters that are not blank. `layout` writes lines of words
as a text, with one space between two words and a line feed between two lines.
Reading such a text gives the same lines of words back (`wordLines_layout`),
unless the text has a blank end that trimming would take away.
-/

namespace LogoSyntax.Text

/-- A run of characters that are not blank. -/
def IsWord (w : List Char) : Prop :=
  w ≠ [] ∧ ∀ c ∈ w, isBlank c = false

/-- The words of the lines of a text without its blank ends. -/
def wordLines (cs : List Char) : List (List (List Char)) :=
  (lines (trim cs)).map fun line => (components line).map Component.chars

/-- Words with a space in front of each, the first one of a fresh line aside. -/
def spread (fresh : Bool) : List (List Char) → List Char
  | [] => []
  | w :: ws => (if fresh then [] else [' ']) ++ w ++ spread false ws

/-- Lines of words; `fresh` says that nothing was written on the first line yet. -/
def layout (fresh : Bool) : List (List (List Char)) → List Char
  | [] => []
  | [line] => spread fresh line
  | line :: next :: rest => spread fresh line ++ '\n' :: layout true (next :: rest)

/-- No line at either end is empty, unless there is nothing at all. -/
def Tight (ls : List (List (List Char))) : Prop :=
  ls = [[]] ∨ (∃ line rest, ls = line :: rest ∧ line ≠ []) ∧
    ∃ front line, ls = front ++ [line] ∧ line ≠ []

theorem isWord_singleton {c : Char} (h : isBlank c = false) : IsWord [c] :=
  ⟨List.cons_ne_nil c [], List.forall_mem_singleton.2 h⟩

theorem exists_append_singleton {α : Type} {as : List α} (h : as ≠ []) :
    ∃ front a, as = front ++ [a] :=
  ⟨as.dropLast, as.getLast h, (List.dropLast_concat_getLast h).symm⟩

/-- A text that is neither empty nor begins with a blank character. -/
theorem exists_cons_of_not_blank {cs : List Char}
    (h : ¬ ∀ c, cs.head? = some c → isBlank c = true) :
    ∃ c rest, cs = c :: rest ∧ isBlank c = false := by
  cases cs with
  | nil => simp at h
  | cons c rest => exact ⟨c, rest, rfl, by simpa using h⟩

/-! ## Trimming -/

/-- Trimming at the back is dropping from the right, as Mathlib has it for lists. -/
theorem trimRight_eq_rdropWhile (cs : List Char) : trimRight cs = cs.rdropWhile isBlank := rfl

theorem trimLeft_eq_self {cs : List Char} (h : ∀ c rest, cs = c :: rest → isBlank c = false) :
    trimLeft cs = cs := by
  cases cs with
  | nil => rfl
  | cons c rest => simp [trimLeft, h c rest rfl]

/-- A text without blank ends is its own trimmed form. -/
theorem trim_eq_self {cs : List Char} (hhead : ∀ c rest, cs = c :: rest → isBlank c = false)
    (hlast : ∀ front c, cs = front ++ [c] → isBlank c = false) : trim cs = cs := by
  rw [trim, trimLeft_eq_self hhead, trimRight_eq_rdropWhile]
  refine List.rdropWhile_eq_self_iff.2 fun hne => ?_
  simp [hlast _ _ (List.dropLast_append_getLast hne).symm]

/-! ## Lines -/

theorem lines_cons {c : Char} {cs : List Char} (hn : c ≠ '\n')
    (hr : ∀ rest, c = '\r' → cs ≠ '\n' :: rest) : lines (c :: cs) = consLine c (lines cs) := by
  rw [lines]
  · exact hn
  · exact fun rest hc hcs => hr rest hc hcs

/-- A line feed behind a text that does not end in a carriage return ends a line. -/
theorem lines_append_newline {cs : List Char} (h : cs.getLast? ≠ some '\r') (ds : List Char) :
    lines (cs ++ '\n' :: ds) = lines cs ++ lines ds := by
  fun_induction lines cs with
  | case1 => rfl
  | case2 cs ih =>
    rw [List.cons_append, lines, ih fun hl => h (by rw [List.getLast?_cons, hl]; rfl)]
    rfl
  | case3 cs ih =>
    rw [List.cons_append, List.cons_append, lines,
      ih fun hl => h (by rw [List.getLast?_cons_cons, List.getLast?_cons, hl]; rfl)]
    rfl
  | case4 c cs hn hr ih =>
    have hcs : cs.getLast? ≠ some '\r' := fun hl => h (by rw [List.getLast?_cons, hl]; rfl)
    have hbreak : ∀ rest, c = '\r' → cs ++ '\n' :: ds ≠ '\n' :: rest := by
      rintro rest rfl hrest
      cases cs with
      | nil => exact h rfl
      | cons d cs => exact hr cs rfl (by rw [(List.cons.inj hrest).1])
    obtain ⟨line, rest, hl⟩ := List.exists_cons_of_ne_nil (lines_ne_nil cs)
    rw [List.cons_append, lines_cons hn hbreak, ih hcs, hl]
    rfl

theorem ne_newline_of_not_blank {c : Char} (h : isBlank c = false) : c ≠ '\n' := by
  rintro rfl
  cases h

/-- The first line begins with the first character. -/
theorem head_lines {c : Char} (cs : List Char) (hc : isBlank c = false) :
    ∃ line rest, lines (c :: cs) = (c :: line) :: rest := by
  have hn := ne_newline_of_not_blank hc
  have hr : c ≠ '\r' := by
    rintro rfl
    cases hc
  rw [lines_cons hn fun _ h => absurd h hr]
  cases h : lines cs with
  | nil => exact ⟨[], [], rfl⟩
  | cons line rest => exact ⟨line, rest, rfl⟩

/-- The last line ends with the last character. -/
theorem last_lines {c : Char} (cs : List Char) (hc : isBlank c = false) :
    ∃ front line, lines (cs ++ [c]) = front ++ [line ++ [c]] := by
  have hn := ne_newline_of_not_blank hc
  fun_induction lines cs with
  | case1 => exact ⟨[], [], by rw [List.nil_append, lines_cons hn (by simp)]; rfl⟩
  | case2 cs ih =>
    obtain ⟨front, line, h⟩ := ih
    exact ⟨[] :: front, line, by rw [List.cons_append, lines, h]; rfl⟩
  | case3 cs ih =>
    obtain ⟨front, line, h⟩ := ih
    exact ⟨[] :: front, line, by rw [List.cons_append, List.cons_append, lines, h]; rfl⟩
  | case4 d cs hd hr ih =>
    obtain ⟨front, line, h⟩ := ih
    have hr' : ∀ rest, d = '\r' → cs ++ [c] ≠ '\n' :: rest := by
      intro rest hd hcs
      cases cs with
      | nil => exact hn (List.cons.inj hcs).1
      | cons e es => exact hr es hd (by rw [(List.cons.inj hcs).1])
    rw [List.cons_append, lines_cons hd hr', h]
    cases front with
    | nil => exact ⟨[], d :: line, rfl⟩
    | cons first front => exact ⟨(d :: first) :: front, line, rfl⟩

/-! ## Components -/

theorem le_col_of_mem {col : Nat} {cs : List Char} {w : Component}
    (h : w ∈ componentsFrom col cs) : col ≤ w.col := by
  induction cs generalizing col w with
  | nil => simp [componentsFrom] at h
  | cons c cs ih =>
    rw [componentsFrom] at h
    split at h
    · exact Nat.le_of_succ_le (ih h)
    · cases hr : componentsFrom (col + 1) cs with
      | nil =>
        rw [hr] at h
        simp only [Component.consChar, List.mem_singleton] at h
        simp [h]
      | cons v vs =>
        rw [hr, Component.consChar] at h
        split at h
        · rcases List.mem_cons.1 h with rfl | h
          · exact Nat.le_refl col
          · exact Nat.le_of_succ_le (ih (hr ▸ List.mem_cons_of_mem v h))
        · rcases List.mem_cons.1 h with rfl | h
          · exact Nat.le_refl col
          · exact Nat.le_of_succ_le (ih (hr ▸ h))

/-- A word in front of a blank character, or of nothing, is the first component. -/
theorem componentsFrom_word {w cs : List Char} (col : Nat) (hw : IsWord w)
    (hcs : ∀ c rest, cs = c :: rest → isBlank c = true) :
    componentsFrom col (w ++ cs) = ⟨col, w⟩ :: componentsFrom (col + w.length) cs := by
  induction w generalizing col with
  | nil => exact absurd rfl hw.1
  | cons c w ih =>
    obtain ⟨hc, hw⟩ := List.forall_mem_cons.1 hw.2
    cases w with
    | nil =>
      rw [List.singleton_append, componentsFrom]
      simp only [hc, Bool.false_eq_true, if_false, List.length_singleton]
      -- Behind the blank character, the next component starts too far away to be extended.
      cases cs with
      | nil => rfl
      | cons d cs =>
        have hd := hcs d cs rfl
        rw [componentsFrom]
        simp only [hd, if_true]
        cases hr : componentsFrom (col + 1 + 1) cs with
        | nil => rfl
        | cons v vs =>
          have hcol := le_col_of_mem (hr ▸ List.mem_cons_self)
          rw [Component.consChar, if_neg (by omega)]
    | cons d w =>
      rw [List.cons_append, componentsFrom, ih (col + 1) ⟨by simp, hw⟩]
      simp only [hc, Bool.false_eq_true, if_false, Component.consChar, if_true, List.length_cons]
      rw [show col + 1 + (w.length + 1) = col + (w.length + 1 + 1) by omega]

theorem chars_spread {ws : List (List Char)} (col : Nat) (h : ∀ w ∈ ws, IsWord w) (fresh : Bool) :
    (componentsFrom col (spread fresh ws)).map Component.chars = ws := by
  induction ws generalizing col fresh with
  | nil => rfl
  | cons w ws ih =>
    obtain ⟨hw, hws⟩ := List.forall_mem_cons.1 h
    have hblank : ∀ c rest, spread false ws = c :: rest → isBlank c = true := by
      intro c rest hc
      cases ws with
      | nil => simp [spread] at hc
      | cons v vs =>
        simp only [spread, Bool.false_eq_true, if_false, List.cons_append] at hc
        rw [← (List.cons.inj hc).1]
        rfl
    have hfresh (col : Nat) :
        (componentsFrom col (w ++ spread false ws)).map Component.chars = w :: ws := by
      rw [componentsFrom_word col hw hblank, List.map_cons, ih _ hws]
    cases fresh with
    | true => exact hfresh col
    | false =>
      have hspace : isBlank ' ' = true := rfl
      simpa [spread, componentsFrom, hspace] using hfresh (col + 1)

theorem components_ne_nil {cs : List Char} {c : Char} (hmem : c ∈ cs) (hc : isBlank c = false) :
    components cs ≠ [] := by
  intro hnil
  have hflat := Component.flatMap_chars_components 1 cs
  change (components cs).flatMap Component.chars = _ at hflat
  rw [hnil, List.flatMap_nil] at hflat
  have hmem' : c ∈ cs.filter fun c => !isBlank c := List.mem_filter.2 ⟨hmem, by simp [hc]⟩
  simp [← hflat] at hmem'

/-! ## Reading what was laid out -/

theorem ne_newline_of_mem_spread {ws : List (List Char)} (h : ∀ w ∈ ws, IsWord w) (fresh : Bool) :
    ∀ c ∈ spread fresh ws, c ≠ '\n' ∧ c ≠ '\r' := by
  have hblank : isBlank '\n' = true ∧ isBlank '\r' = true := ⟨rfl, rfl⟩
  induction ws generalizing fresh with
  | nil => simp [spread]
  | cons w ws ih =>
    obtain ⟨hw, hws⟩ := List.forall_mem_cons.1 h
    intro c hc
    simp only [spread, List.mem_append] at hc
    rcases hc with (hc | hc) | hc
    · cases fresh with
      | true => cases hc
      | false =>
        obtain rfl : c = ' ' := by simpa using hc
        decide
    · have hword := hw.2 c hc
      exact ⟨fun hn => by simp [hn, hblank.1] at hword, fun hr => by simp [hr, hblank.2] at hword⟩
    · exact ih hws false c hc

theorem lines_layout {ls : List (List (List Char))} (hne : ls ≠ [])
    (h : ∀ line ∈ ls, ∀ w ∈ line, IsWord w) : lines (layout true ls) = ls.map (spread true) := by
  induction ls with
  | nil => exact absurd rfl hne
  | cons line ls ih =>
    obtain ⟨hline, hls⟩ := List.forall_mem_cons.1 h
    have hbreak := ne_newline_of_mem_spread hline true
    cases ls with
    | nil => exact lines_of_not_mem fun hn => (hbreak _ hn).1 rfl
    | cons next rest =>
      have hlast : (spread true line).getLast? ≠ some '\r' := fun hl =>
        (hbreak _ (List.mem_of_getLast? hl)).2 rfl
      rw [layout, lines_append_newline hlast, ih (by simp) hls,
        lines_of_not_mem fun hn => (hbreak _ hn).1 rfl]
      rfl

theorem layout_cons_cons (fresh : Bool) (w : List Char) (line : List (List Char))
    (rest : List (List (List Char))) :
    layout fresh ((w :: line) :: rest) =
      (if fresh then [] else [' ']) ++ w ++ layout false (line :: rest) := by
  cases rest with
  | nil => simp [layout, spread]
  | cons next rest => simp [layout, spread]

theorem spread_append {ws : List (List Char)} (h : ws ≠ []) (fresh : Bool)
    (vs : List (List Char)) : spread fresh (ws ++ vs) = spread fresh ws ++ spread false vs := by
  induction ws generalizing fresh with
  | nil => exact absurd rfl h
  | cons w ws ih =>
    cases ws with
    | nil => simp [spread]
    | cons v ws =>
      have hcons (us : List (List Char)) :
          spread fresh (w :: us) = (if fresh then [] else [' ']) ++ w ++ spread false us := rfl
      have htail := ih (by simp) false
      rw [List.cons_append, hcons, hcons, htail, List.append_assoc _ (spread false _)]

theorem spread_false {ws : List (List Char)} (h : ws ≠ []) :
    spread false ws = ' ' :: spread true ws := by
  cases ws with
  | nil => exact absurd rfl h
  | cons w ws => rfl

theorem spread_concat (fresh : Bool) (ws : List (List Char)) (w : List Char) :
    ∃ front, spread fresh (ws ++ [w]) = front ++ w := by
  induction ws generalizing fresh with
  | nil => exact ⟨if fresh then [] else [' '], by simp [spread]⟩
  | cons v ws ih =>
    obtain ⟨front, hfront⟩ := ih false
    exact ⟨(if fresh then [] else [' ']) ++ v ++ front, by simp [spread, hfront]⟩

theorem layout_concat (fresh : Bool) (ls : List (List (List Char))) (line : List (List Char))
    (w : List Char) : ∃ front, layout fresh (ls ++ [line ++ [w]]) = front ++ w := by
  induction ls generalizing fresh with
  | nil => exact spread_concat fresh line w
  | cons first ls ih =>
    obtain ⟨front, hfront⟩ := ih true
    refine ⟨spread fresh first ++ '\n' :: front, ?_⟩
    cases hls : ls ++ [line ++ [w]] with
    | nil => simp at hls
    | cons next rest => rw [List.cons_append, hls, layout, ← hls, hfront]; simp

theorem trim_layout {ls : List (List (List Char))} (ht : Tight ls)
    (h : ∀ line ∈ ls, ∀ w ∈ line, IsWord w) : trim (layout true ls) = layout true ls := by
  rcases ht with rfl | ⟨⟨first, rest, rfl, hfirst⟩, front, last, hls, hlast⟩
  · rfl
  refine trim_eq_self (fun c cs hc => ?_) fun cs c hc => ?_
  · obtain ⟨w, ws, rfl⟩ := List.exists_cons_of_ne_nil hfirst
    obtain ⟨hne, hw⟩ := h _ List.mem_cons_self w List.mem_cons_self
    obtain ⟨d, ds, rfl⟩ := List.exists_cons_of_ne_nil hne
    rw [layout_cons_cons] at hc
    exact (List.cons.inj hc).1 ▸ hw d List.mem_cons_self
  · obtain ⟨ws, w, rfl⟩ := exists_append_singleton hlast
    rw [hls] at h hc
    obtain ⟨hne, hw⟩ := h _ (List.mem_append_right _ List.mem_cons_self) w (by simp)
    obtain ⟨ds, d, rfl⟩ := exists_append_singleton hne
    obtain ⟨text, htext⟩ := layout_concat true front ws (ds ++ [d])
    rw [htext, ← List.append_assoc] at hc
    obtain ⟨-, hd⟩ := List.append_inj' hc rfl
    exact List.singleton_inj.1 hd ▸ hw d (by simp)

/-- Lines of words are read back from their layout. -/
theorem wordLines_layout {ls : List (List (List Char))} (ht : Tight ls)
    (h : ∀ line ∈ ls, ∀ w ∈ line, IsWord w) : wordLines (layout true ls) = ls := by
  have hne : ls ≠ [] := by
    rcases ht with rfl | ⟨⟨first, rest, rfl, -⟩, -⟩ <;> simp
  rw [wordLines, trim_layout ht h, lines_layout hne h, List.map_map]
  have hline : ∀ line ∈ ls, (components (spread true line)).map Component.chars = line :=
    fun line hl => chars_spread 1 (h line hl) true
  exact (List.map_congr_left hline).trans (List.map_id' ls)

/-! ## Word lines of a text -/

theorem isWord_of_mem_wordLines (cs : List Char) :
    ∀ line ∈ wordLines cs, ∀ w ∈ line, IsWord w := by
  intro line hline w hw
  obtain ⟨text, -, rfl⟩ := List.mem_map.1 hline
  obtain ⟨v, hv, rfl⟩ := List.mem_map.1 hw
  exact Component.sound_of_mem hv

theorem tight_wordLines (cs : List Char) : Tight (wordLines cs) := by
  by_cases hnil : trim cs = []
  · left
    rw [wordLines, hnil]
    rfl
  obtain ⟨front, c, hlast⟩ := exists_append_singleton hnil
  right
  constructor
  · obtain ⟨d, rest, hd⟩ := List.exists_cons_of_ne_nil hnil
    have hblank := trim_head hd
    obtain ⟨line, ls, hls⟩ := head_lines rest hblank
    refine ⟨_, _, by rw [wordLines, hd, hls]; rfl, ?_⟩
    simpa using components_ne_nil List.mem_cons_self hblank
  · have hblank := trim_last hlast
    obtain ⟨ls, line, hls⟩ := last_lines front hblank
    refine ⟨_, _, by rw [wordLines, hlast, hls, List.map_append]; rfl, ?_⟩
    simpa using components_ne_nil (List.mem_append_right line List.mem_cons_self) hblank

end LogoSyntax.Text

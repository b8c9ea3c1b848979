-- SUMMARY: No text fits two shapes of the table, so a component is classified alike by the shapes in any order.
import LogoSyntax.Token.Shape

/-!
# Separation

Classification takes the first shape of a table that a component fits. The order of
the table is of no consequence for that: no text fits two of its shapes
(`Shape.eq_of_fits`), so any order finds the one shape that a component fits, if there
is one (`classify_by_any_order`).

Most shapes are told apart by the first characters of their texts. A number may begin
with a sign, but no sign is a number.
-/

namespace LogoSyntax

/-! ## Characters of a match -/

namespace Regex

/-- The ranges in which the first character of a text lies. -/
def first : Regex → List (Char × Char)
  | never => []
  | empty => []
  | oneOf ranges => ranges
  | seq r s => if r.nullable then r.first ++ s.first else r.first
  | alt r s => r.first ++ s.first
  | star r => r.first

/-- The ranges in which the characters of a text lie. -/
def ranges : Regex → List (Char × Char)
  | never => []
  | empty => []
  | oneOf ranges => ranges
  | seq r s => r.ranges ++ s.ranges
  | alt r s => r.ranges ++ s.ranges
  | star r => r.ranges

theorem inRanges_append (c : Char) (as bs : List (Char × Char)) :
    inRanges c (as ++ bs) = (inRanges c as || inRanges c bs) :=
  List.any_append

theorem inRanges_eq_true_iff {c : Char} {as : List (Char × Char)} :
    inRanges c as = true ↔ ∃ range ∈ as, range.1 ≤ c ∧ c ≤ range.2 := by
  simp [inRanges]

theorem Matches.first {r : Regex} {c : Char} {cs : List Char} (h : Matches r (c :: cs)) :
    inRanges c r.first = true := by
  induction r generalizing cs with
  | never => exact absurd h not_matches_never
  | empty => cases matches_empty_iff.1 h
  | oneOf ranges =>
    obtain ⟨d, hd, hc⟩ := matches_oneOf_iff.1 h
    rwa [(List.cons.inj hd).1]
  | seq r s ihr ihs =>
    obtain ⟨xs, ys, hcs, hr, hs⟩ := matches_seq_iff.1 h
    cases xs with
    | nil =>
      obtain rfl : c :: cs = ys := hcs
      rw [Regex.first, if_pos (nullable_iff.2 hr), inRanges_append, ihs hs, Bool.or_true]
    | cons d xs =>
      obtain rfl : c = d := (List.cons.inj hcs).1
      rw [Regex.first]
      split
      · rw [inRanges_append, ihr hr, Bool.true_or]
      · exact ihr hr
  | alt r s ihr ihs =>
    rw [Regex.first, inRanges_append, Bool.or_eq_true]
    exact (matches_alt_iff.1 h).imp ihr ihs
  | star r ih =>
    obtain ⟨xs, ys, -, hr, -⟩ := matches_star_cons h
    exact ih hr

/-- Behind its first character, a text goes on with what follows one character. -/
theorem Matches.tail {ranges : List (Char × Char)} {r : Regex} {cs : List Char}
    (h : Matches (.seq (.oneOf ranges) r) cs) : Matches r cs.tail := by
  obtain ⟨xs, ys, rfl, hfirst, hrest⟩ := matches_seq_iff.1 h
  obtain ⟨c, rfl, -⟩ := matches_oneOf_iff.1 hfirst
  exact hrest

theorem Matches.ranges {r : Regex} {cs : List Char} (h : Matches r cs) :
    ∀ c ∈ cs, inRanges c r.ranges = true := by
  induction h with
  | empty => simp
  | oneOf hc => exact List.forall_mem_singleton.2 hc
  | seq _ _ ihr ihs =>
    intro c hc
    rw [Regex.ranges, inRanges_append, Bool.or_eq_true]
    exact (List.mem_append.1 hc).imp (ihr c) (ihs c)
  | altLeft _ ih =>
    intro c hc
    rw [Regex.ranges, inRanges_append, ih c hc, Bool.true_or]
  | altRight _ ih =>
    intro c hc
    rw [Regex.ranges, inRanges_append, ih c hc, Bool.or_true]
  | starNil => simp
  | starCons _ _ ihr ihs =>
    intro c hc
    exact (List.mem_append.1 hc).elim (ihr c) (ihs c)

instance (r : Regex) (cs : List Char) : Decidable (Matches r cs) :=
  decidable_of_iff _ accepts_iff

/-- Whether no character lies in two unions of ranges. -/
def apart (as bs : List (Char × Char)) : Bool :=
  as.all fun a => bs.all fun b => a.2 < b.1 || b.2 < a.1

theorem not_inRanges_of_apart {as bs : List (Char × Char)} {c : Char} (h : apart as bs = true)
    (ha : inRanges c as = true) (hb : inRanges c bs = true) : False := by
  obtain ⟨a, hmem, hlow, hhigh⟩ := inRanges_eq_true_iff.1 ha
  obtain ⟨b, hmem', hlow', hhigh'⟩ := inRanges_eq_true_iff.1 hb
  have hab : a.2 < b.1 ∨ b.2 < a.1 := by
    simpa using List.all_eq_true.1 (List.all_eq_true.1 h a hmem) b hmem'
  rcases hab with hlt | hlt
  · exact Char.not_lt.2 (Char.le_trans hlow' hhigh) hlt
  · exact Char.not_lt.2 (Char.le_trans hlow hhigh') hlt

/-! ## Expressions without a common text -/

theorem matches_single_iff {c : Char} {cs : List Char} : Matches (single c) cs ↔ cs = [c] := by
  rw [single, matches_oneOf_iff]
  constructor
  · rintro ⟨d, rfl, hd⟩
    obtain ⟨range, hrange, hlow, hhigh⟩ := inRanges_eq_true_iff.1 hd
    obtain rfl := List.mem_singleton.1 hrange
    rw [Char.le_antisymm hhigh hlow]
  · rintro rfl
    have hc : inRanges c [(c, c)] = true :=
      inRanges_eq_true_iff.2 ⟨_, List.mem_singleton_self _, Char.le_refl c, Char.le_refl c⟩
    exact ⟨c, rfl, hc⟩

/-- The character that an expression stands for, if it is a single one. -/
def character? : Regex → Option Char
  | oneOf [(low, high)] => if low = high then some low else none
  | _ => none

theorem eq_single_of_character? {r : Regex} {c : Char} (h : r.character? = some c) :
    r = single c := by
  unfold character? at h
  split at h
  · split at h
    · next low high heq =>
      cases h
      rw [heq, single]
    · cases h
  · cases h

/-- Whether it is plain that two expressions have no text in common: one of them is a
    character that the other one does not accept, or no character begins a text of both. -/
def separate (r s : Regex) : Bool :=
  match r.character?, s.character? with
  | some c, _ => !s.accepts [c]
  | none, some c => !r.accepts [c]
  | none, none => !r.nullable && apart r.first s.first

theorem not_matches_of_separate {r s : Regex} {cs : List Char} (h : separate r s = true)
    (hr : Matches r cs) (hs : Matches s cs) : False := by
  unfold separate at h
  split at h
  · next c hc =>
    rw [eq_single_of_character? hc, matches_single_iff] at hr
    subst hr
    simp [accepts_iff.2 hs] at h
  · next c _ hc =>
    rw [eq_single_of_character? hc, matches_single_iff] at hs
    subst hs
    simp [accepts_iff.2 hr] at h
  · obtain ⟨hnull, hapart⟩ : r.nullable = false ∧ apart r.first s.first = true := by
      simpa using h
    cases cs with
    | nil => simp [nullable_iff.2 hr] at hnull
    | cons c cs => exact not_inRanges_of_apart hapart hr.first hs.first

end Regex

open Regex

/-! ## Shapes of the table -/

namespace Shape

theorem eq_or_separate : ∀ s ∈ table, ∀ t ∈ table,
    s = t ∨ separate s.regex t.regex = true := by
  decide

/-- No text fits two shapes of the table. -/
theorem eq_of_fits {s t : Shape} {cs : List Char} (hs : s ∈ table) (ht : t ∈ table)
    (hsfits : s.fits cs = true) (htfits : t.fits cs = true) : s = t := by
  refine (eq_or_separate s hs t ht).resolve_right fun hseparate => ?_
  exact not_matches_of_separate hseparate (accepts_iff.1 hsfits) (accepts_iff.1 htfits)

end Shape

/-- In any order of the table, a component is read by the shape that it fits. -/
theorem classifyBy_eq_some_iff {table : List Shape} (h : table.Perm Shape.table) {cs : List Char}
    {reading : TokenKind × Option String} :
    classifyBy table cs = some reading ↔
      ∃ s ∈ Shape.table, s.fits cs = true ∧ s.reading cs = reading := by
  rw [classifyBy, Option.map_eq_some_iff]
  constructor
  · rintro ⟨s, hs, hreading⟩
    exact ⟨s, h.mem_iff.1 (List.mem_of_find?_eq_some hs), by simpa using List.find?_some hs, hreading⟩
  · rintro ⟨s, hs, hfits, hreading⟩
    obtain ⟨t, ht⟩ : ∃ t, table.find? (fun s => s.fits cs) = some t :=
      Option.isSome_iff_exists.1 (List.find?_isSome.2 ⟨s, h.mem_iff.2 hs, hfits⟩)
    have htmem : t ∈ Shape.table := h.mem_iff.1 (List.mem_of_find?_eq_some ht)
    obtain rfl : t = s := Shape.eq_of_fits htmem hs (by simpa using List.find?_some ht) hfits
    exact ⟨t, ht, hreading⟩

/-- A component that fits a shape of the table is read by that shape. -/
theorem classify_of_fits {s : Shape} {cs : List Char} (hs : s ∈ Shape.table)
    (h : s.fits cs = true) : classify cs = some (s.reading cs) :=
  (classifyBy_eq_some_iff (List.Perm.refl _)).2 ⟨s, hs, h, rfl⟩

theorem isSome_classify_iff {cs : List Char} :
    (classify cs).isSome = true ↔ ∃ s ∈ Shape.table, s.fits cs = true := by
  simp [classify, classifyBy]

/-- No two of the sixteen shapes of the table have a text in common. A component is
    therefore classified alike by the shapes in any order, and it is not classified
    exactly if it is a text of none of them. -/
theorem classify_by_any_order :
    Shape.table.length = 16 ∧
    (Shape.table.Pairwise fun s t => ∀ cs, ¬ (Matches s.regex cs ∧ Matches t.regex cs)) ∧
    (∀ table : List Shape, table.Perm Shape.table → ∀ cs, classifyBy table cs = classify cs) ∧
    ∀ cs, classify cs = none ↔ ∀ s ∈ Shape.table, ¬ Matches s.regex cs := by
  refine ⟨rfl, ?_, fun table htable cs => ?_, fun cs => ?_⟩
  · have hnodup : Shape.table.Nodup := by decide
    refine hnodup.imp_of_mem fun {s t} hs ht hne cs hmatches => ?_
    exact hne (Shape.eq_of_fits hs ht (accepts_iff.2 hmatches.1) (accepts_iff.2 hmatches.2))
  · refine Option.ext fun reading => ?_
    rw [classify, classifyBy_eq_some_iff htable, classifyBy_eq_some_iff (List.Perm.refl _)]
  · rw [← Option.not_isSome_iff_eq_none, isSome_classify_iff]
    simp only [Shape.fits, accepts_iff, not_exists, not_and]

/-- From its last shape to its first, the table tells a number from the sign in front of it. -/
theorem classify_by_reversed_table :
    Shape.table.reverse.Perm Shape.table ∧
      classifyBy Shape.table.reverse "-.5e1".toList = some (.number, some "-.5e1") ∧
      classifyBy Shape.table.reverse "-".toList = some (.sign .sub, none) := by
  have hperm : Shape.table.reverse.Perm Shape.table := List.reverse_perm _
  obtain ⟨-, -, horder, -⟩ := classify_by_any_order
  refine ⟨hperm, ?_, ?_⟩
  · rw [horder _ hperm]
    decide
  · rw [horder _ hperm]
    decide

end LogoSyntax

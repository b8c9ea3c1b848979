-- SUMMARY: Regular expressions over characters: the texts they denote, and matching by derivatives.

/-!
# Regular expressions

`Regex.Matches` says which whole texts an expression denotes. `Regex.accepts`
decides it by taking one derivative for each character and asking at the end
whether the empty text is left over. The smart constructors `cat` and `or` drop
the parts that denote nothing, so that a derivative stays as small as the
expression it comes from.

The main statement is `accepts_iff`: the decision agrees with the denotation.
-/

namespace LogoSyntax

/-- A regular expression over characters. -/
inductive Regex where
  /-- Denotes no text. -/
  | never
  /-- Denotes the empty text. -/
  | empty
  /-- Denotes the one-character texts of a union of inclusive ranges. -/
  | oneOf (ranges : List (Char × Char))
  /-- One text after another. -/
  | seq (first second : Regex)
  /-- One text or the other. -/
  | alt (left right : Regex)
  /-- Any number of texts one after another. -/
  | star (body : Regex)
deriving DecidableEq, Repr

namespace Regex

/-- Whether a character lies in one of the ranges. -/
def inRanges (c : Char) (ranges : List (Char × Char)) : Bool :=
  ranges.any fun range => range.1 ≤ c && c ≤ range.2

/-- The single character `c`. -/
def single (c : Char) : Regex :=
  oneOf [(c, c)]

/-- At most one text of `r`. -/
def optional (r : Regex) : Regex :=
  alt r empty

/-- At least one text of `r`. -/
def plus (r : Regex) : Regex :=
  seq r (star r)

/-! ## Denotation -/

/-- `Matches r cs` says that the whole text `cs` is one of the texts of `r`. -/
inductive Matches : Regex → List Char → Prop where
  | empty : Matches empty []
  | oneOf {ranges : List (Char × Char)} {c : Char} (h : inRanges c ranges = true) :
      Matches (oneOf ranges) [c]
  | seq {r s : Regex} {xs ys : List Char} (hr : Matches r xs) (hs : Matches s ys) :
      Matches (seq r s) (xs ++ ys)
  | altLeft {r s : Regex} {xs : List Char} (h : Matches r xs) : Matches (alt r s) xs
  | altRight {r s : Regex} {xs : List Char} (h : Matches s xs) : Matches (alt r s) xs
  | starNil {r : Regex} : Matches (star r) []
  | starCons {r : Regex} {xs ys : List Char} (hr : Matches r xs) (hs : Matches (star r) ys) :
      Matches (star r) (xs ++ ys)

/-! ## Matching -/

/-- Whether the empty text is among the texts of an expression. -/
def nullable : Regex → Bool
  | never => false
  | empty => true
  | oneOf _ => false
  | seq r s => r.nullable && s.nullable
  | alt r s => r.nullable || s.nullable
  | star _ => true

/-- Like `seq`, without parts that denote nothing or the empty text alone. -/
def cat : Regex → Regex → Regex
  | never, _ => never
  | empty, s => s
  | r, s => seq r s

/-- Like `alt`, without parts that denote nothing. -/
def or : Regex → Regex → Regex
  | never, s => s
  | r, never => r
  | r, s => alt r s

/-- The texts that complete the character `c` to a text of the expression. -/
def derivative (c : Char) : Regex → Regex
  | never => never
  | empty => never
  | oneOf ranges => if inRanges c ranges then empty else never
  | seq r s =>
    if r.nullable then or (cat (r.derivative c) s) (s.derivative c)
    else cat (r.derivative c) s
  | alt r s => or (r.derivative c) (s.derivative c)
  | star r => cat (r.derivative c) (star r)

/-- Whether a whole text is one of the texts of an expression. -/
def accepts (r : Regex) (cs : List Char) : Bool :=
  (cs.foldl (fun r c => r.derivative c) r).nullable

/-! ## Correctness -/

theorem not_matches_never {cs : List Char} : ¬ Matches never cs := nofun

theorem matches_empty_iff {cs : List Char} : Matches empty cs ↔ cs = [] :=
  ⟨fun h => by cases h; rfl, fun h => h ▸ .empty⟩

theorem matches_oneOf_iff {ranges : List (Char × Char)} {cs : List Char} :
    Matches (oneOf ranges) cs ↔ ∃ c, cs = [c] ∧ inRanges c ranges = true :=
  ⟨fun h => by cases h with | oneOf hc => exact ⟨_, rfl, hc⟩,
   fun ⟨_, h, hc⟩ => h ▸ .oneOf hc⟩

theorem matches_seq_iff {r s : Regex} {cs : List Char} :
    Matches (seq r s) cs ↔ ∃ xs ys, cs = xs ++ ys ∧ Matches r xs ∧ Matches s ys :=
  ⟨fun h => by cases h with | seq hr hs => exact ⟨_, _, rfl, hr, hs⟩,
   fun ⟨_, _, h, hr, hs⟩ => h ▸ .seq hr hs⟩

theorem matches_alt_iff {r s : Regex} {cs : List Char} :
    Matches (alt r s) cs ↔ Matches r cs ∨ Matches s cs :=
  ⟨fun h => by
    cases h with
    | altLeft h => exact .inl h
    | altRight h => exact .inr h,
   fun h => h.elim .altLeft .altRight⟩

theorem nullable_iff {r : Regex} : r.nullable = true ↔ Matches r [] := by
  induction r with
  | never => simp [nullable, not_matches_never]
  | empty => simp [nullable, matches_empty_iff]
  | oneOf ranges => simp [nullable, matches_oneOf_iff]
  | seq r s ihr ihs =>
    simp only [nullable, Bool.and_eq_true, ihr, ihs, matches_seq_iff]
    constructor
    · rintro ⟨hr, hs⟩
      exact ⟨[], [], rfl, hr, hs⟩
    · rintro ⟨xs, ys, h, hr, hs⟩
      obtain ⟨rfl, rfl⟩ := List.append_eq_nil_iff.1 h.symm
      exact ⟨hr, hs⟩
  | alt r s ihr ihs => simp [nullable, ihr, ihs, matches_alt_iff]
  | star r => simp [nullable, Matches.starNil]

theorem matches_cat {r s : Regex} {cs : List Char} :
    Matches (cat r s) cs ↔ Matches (seq r s) cs := by
  unfold cat
  split
  · simp [matches_seq_iff, not_matches_never]
  · rw [matches_seq_iff]
    constructor
    · intro h
      exact ⟨[], cs, rfl, .empty, h⟩
    · rintro ⟨xs, ys, rfl, hr, hs⟩
      cases matches_empty_iff.1 hr
      exact hs
  · rfl

theorem matches_or {r s : Regex} {cs : List Char} :
    Matches (or r s) cs ↔ Matches (alt r s) cs := by
  unfold or
  split <;> simp [matches_alt_iff, not_matches_never]

/-- A non-empty text of a repetition begins with a non-empty text of its body. -/
theorem matches_star_cons {r : Regex} {c : Char} {cs : List Char}
    (h : Matches (star r) (c :: cs)) :
    ∃ xs ys, cs = xs ++ ys ∧ Matches r (c :: xs) ∧ Matches (star r) ys := by
  generalize hr : star r = r' at h
  generalize hc : c :: cs = cs' at h
  induction h with
  | empty | oneOf | seq | altLeft | altRight => cases hr
  | starNil => cases hc
  | @starCons r' xs ys hx hy _ ih =>
    cases hr
    cases xs with
    | nil => exact ih rfl hc
    | cons d xs =>
      simp only [List.cons_append, List.cons.injEq] at hc
      obtain ⟨rfl, rfl⟩ := hc
      exact ⟨xs, ys, rfl, hx, hy⟩

/-- The derivative by `c` denotes the completions of `c`. -/
theorem matches_derivative {r : Regex} {c : Char} {cs : List Char} :
    Matches (r.derivative c) cs ↔ Matches r (c :: cs) := by
  induction r generalizing cs with
  | never => simp [derivative, not_matches_never]
  | empty => simp [derivative, not_matches_never, matches_empty_iff]
  | oneOf ranges =>
    rw [derivative, matches_oneOf_iff]
    split
    · next h =>
      rw [matches_empty_iff]
      constructor
      · rintro rfl
        exact ⟨c, rfl, h⟩
      · rintro ⟨d, hd, _⟩
        exact (List.cons.inj hd).2
    · next h =>
      simp only [not_matches_never, false_iff]
      rintro ⟨d, hd, hm⟩
      exact h ((List.cons.inj hd).1 ▸ hm)
  | seq r s ihr ihs =>
    have hstep : Matches (cat (r.derivative c) s) cs ↔
        ∃ xs ys, cs = xs ++ ys ∧ Matches r (c :: xs) ∧ Matches s ys := by
      simp only [matches_cat, matches_seq_iff, ihr]
    have hsplit : Matches (seq r s) (c :: cs) ↔
        (Matches r [] ∧ Matches s (c :: cs)) ∨
          ∃ xs ys, cs = xs ++ ys ∧ Matches r (c :: xs) ∧ Matches s ys := by
      rw [matches_seq_iff]
      constructor
      · rintro ⟨xs, ys, h, hr, hs⟩
        cases xs with
        | nil => exact .inl ⟨hr, by simpa using h ▸ hs⟩
        | cons d xs =>
          simp only [List.cons_append, List.cons.injEq] at h
          obtain ⟨rfl, rfl⟩ := h
          exact .inr ⟨xs, ys, rfl, hr, hs⟩
      · rintro (⟨hr, hs⟩ | ⟨xs, ys, h, hr, hs⟩)
        · exact ⟨[], c :: cs, rfl, hr, hs⟩
        · exact ⟨c :: xs, ys, by simp [h], hr, hs⟩
    rw [derivative, hsplit]
    split
    · next hn =>
      rw [matches_or, matches_alt_iff, hstep, ihs]
      simp only [nullable_iff.1 hn, true_and]
      exact or_comm
    · next hn =>
      rw [hstep]
      have hr : ¬ Matches r [] := fun h => hn (nullable_iff.2 h)
      simp [hr]
  | alt r s ihr ihs => simp [derivative, matches_or, matches_alt_iff, ihr, ihs]
  | star r ih =>
    rw [derivative, matches_cat, matches_seq_iff]
    constructor
    · rintro ⟨xs, ys, rfl, hr, hs⟩
      exact .starCons (ih.1 hr) hs
    · intro h
      obtain ⟨xs, ys, hcs, hr, hs⟩ := matches_star_cons h
      exact ⟨xs, ys, hcs, ih.2 hr, hs⟩

/-- The matcher accepts exactly the texts that the expression denotes. -/
theorem accepts_iff {r : Regex} {cs : List Char} : r.accepts cs = true ↔ Matches r cs := by
  induction cs generalizing r with
  | nil => exact nullable_iff
  | cons c cs ih =>
    have : r.accepts (c :: cs) = (r.derivative c).accepts cs := rfl
    rw [this, ih, matches_derivative]

end Regex

end LogoSyntax

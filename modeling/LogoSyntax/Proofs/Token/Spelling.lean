-- SUMMARY: The atoms of programs: which texts they can have, and the word that each of them is read from.
import LogoSyntax.Proofs.Token.Classification

/-!
# Spelling

An atom of a program is a text that one token carries. Which texts an atom can have is
a matter of its shape alone (`Atom.Fits`): a word that is classified as that atom
exists exactly for these texts (`Atom.fits_of_classify`, `Atom.Fits.classify_spelling`).

A word is classified by the first shape that it fits. No word fits two of them, so the
shapes in front of the one of an atom never take a word away from it.
-/

namespace LogoSyntax

open Text Regex

/-! ## Words of the table -/

/-- What is classified is a word: every shape asks for graphic ASCII characters. -/
theorem isWord_of_classify {w : List Char} (h : (classify w).isSome = true) : IsWord w := by
  have htable : ∀ s ∈ Shape.table, s.regex.nullable = false ∧
      ∀ range ∈ s.regex.ranges, '!' ≤ range.1 ∧ range.2 ≤ '~' := by decide
  obtain ⟨s, hs, hfits⟩ := isSome_classify_iff.1 h
  obtain ⟨hnull, hranges⟩ := htable s hs
  have hmatches : Matches s.regex w := accepts_iff.1 hfits
  constructor
  · rintro rfl
    simp [nullable_iff.2 hmatches] at hnull
  · intro c hc
    obtain ⟨range, hrange, hlow, hhigh⟩ := inRanges_eq_true_iff.1 (hmatches.ranges c hc)
    obtain ⟨hfirst, hlast⟩ := hranges range hrange
    have hmin : 33 ≤ c.toNat := Char.le_trans hfirst hlow
    have hmax : c.toNat ≤ 126 := Char.le_trans hhigh hlast
    simp only [isBlank, Bool.or_eq_false_iff, Bool.and_eq_false_iff, decide_eq_false_iff_not,
      beq_eq_false_iff_ne]
    omega

/-- A name that is read as a procedure is not spelled like a keyword. -/
theorem not_keyword_of_classify {w : List Char} {value : Option String}
    (h : classify w = some (.procedure, value)) :
    Keyword.ofSpelling? (String.ofList w) = none := by
  obtain ⟨s, -, hr⟩ := Option.map_eq_some_iff.1 h
  unfold Shape.reading at hr
  split at hr
  · cases hr
  · next hkeyword =>
    have hkind : s.kind = .procedure := congrArg Prod.fst hr
    cases hk : Keyword.ofSpelling? (String.ofList w) with
    | none => rfl
    | some k => exact absurd hk (hkeyword k hkind)

theorem Keyword.ofSpelling?_eq_none_iff {text : String} :
    Keyword.ofSpelling? text = none ↔ text ∉ Keyword.all.map Keyword.spelling := by
  simp [ofSpelling?]

/-! ## Atoms -/

/-- A text of a program that one token carries. -/
inductive Atom where
  | procedure (name : String)
  | word (text : String)
  | number (text : String)
  | variableName (name : String)
deriving DecidableEq, Repr

namespace Atom

/-- The kind of the token that carries the atom. -/
def kind : Atom → TokenKind
  | procedure _ => .procedure
  | word _ => .word
  | number _ => .number
  | variableName _ => .variableName

/-- The text of the atom. -/
def text : Atom → String
  | procedure name => name
  | word text => text
  | number text => text
  | variableName name => name

/-- Whether the text is one that a token of the atom's kind can carry. -/
def Fits : Atom → Prop
  | procedure name => Matches (.seq Shape.identifier (.optional (.single '?'))) name.toList ∧
      name ∉ Keyword.all.map Keyword.spelling
  | word text => Matches Shape.identifier text.toList
  | number text => Matches Shape.numeral text.toList
  | variableName name => Matches Shape.identifier name.toList

/-- A word that the atom is read from. -/
def spelling : Atom → List Char
  | procedure name => name.toList
  | word text => '"' :: text.toList
  | number text => text.toList
  | variableName name => ':' :: name.toList

instance (a : Atom) : Decidable a.Fits :=
  match a with
  | procedure _ => inferInstanceAs (Decidable (_ ∧ _))
  | word _ => inferInstanceAs (Decidable (Matches _ _))
  | number _ => inferInstanceAs (Decidable (Matches _ _))
  | variableName _ => inferInstanceAs (Decidable (Matches _ _))

/-- The shape that the atom's words fit. -/
def shape : Atom → Shape
  | procedure _ => ⟨.procedure, .seq Shape.identifier (.optional (.single '?')), .whole⟩
  | word _ => ⟨.word, .seq (.oneOf [('"', '"'), ('\'', '\'')]) Shape.identifier, .afterFirst⟩
  | number _ => ⟨.number, Shape.numeral, .whole⟩
  | variableName _ => ⟨.variableName, .seq (.single ':') Shape.identifier, .afterFirst⟩

theorem shape_mem (a : Atom) : a.shape ∈ Shape.table := by
  cases a <;> (rw [shape]; decide)

theorem eq_shape {a : Atom} {s : Shape} (hs : s ∈ Shape.table) (hk : s.kind = a.kind) :
    s = a.shape := by
  have htable : ∀ s ∈ Shape.table, ∀ t ∈ Shape.table, s.kind = t.kind → s = t := by decide
  exact htable s hs a.shape a.shape_mem (by cases a <;> exact hk)

/-- An atom that is read from some word has a text of its shape. -/
theorem fits_of_classify {a : Atom} {w : List Char}
    (h : classify w = some (a.kind, some a.text)) : a.Fits := by
  obtain ⟨s, hs, hfits, hkind, hvalue⟩ := exists_shape_of_classify h (by cases a <;> rfl)
  obtain rfl := eq_shape hs hkind
  have hmatches : Matches a.shape.regex w := accepts_iff.1 hfits
  cases a with
  | procedure name =>
    obtain rfl : name = String.ofList w := Option.some.inj hvalue
    rw [Fits, String.toList_ofList, ← Keyword.ofSpelling?_eq_none_iff]
    exact ⟨hmatches, not_keyword_of_classify h⟩
  | number text =>
    obtain rfl : text = String.ofList w := Option.some.inj hvalue
    rw [Fits, String.toList_ofList]
    exact hmatches
  | word text | variableName text =>
    -- The quote or the colon in front is no part of the value.
    obtain rfl : text = String.ofList w.tail := Option.some.inj hvalue
    rw [Fits, String.toList_ofList]
    exact hmatches.tail

/-- The spelling of an atom with a text of its shape fits the shape. -/
theorem Fits.spelling {a : Atom} (h : a.Fits) : a.shape.fits a.spelling = true := by
  cases a with
  | procedure name => exact accepts_iff.2 h.1
  | word text => exact accepts_iff.2 (matches_seq_iff.2 ⟨['"'], _, rfl, .oneOf rfl, h⟩)
  | number text => exact accepts_iff.2 h
  | variableName name => exact accepts_iff.2 (matches_seq_iff.2 ⟨[':'], _, rfl, .oneOf rfl, h⟩)

/-- An atom with a text of its shape is read from its spelling. -/
theorem Fits.classify_spelling {a : Atom} (h : a.Fits) :
    classify a.spelling = some (a.kind, some a.text) := by
  rw [classify_of_fits a.shape_mem h.spelling]
  cases a with
  | procedure name =>
    have hkeyword := Keyword.ofSpelling?_eq_none_iff.2 h.2
    simp [Shape.reading, shape, kind, text, Atom.spelling, hkeyword, Payload.of]
  | word | number | variableName =>
    simp [Shape.reading, shape, kind, Atom.text, Atom.spelling, Payload.of]

end Atom

end LogoSyntax

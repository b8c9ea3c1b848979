-- SUMMARY: What the value of a token says about the component it comes from.
import LogoSyntax.Proofs.Token.Content
import LogoSyntax.Proofs.Token.Separation

/-!
# Classification

The value of a number is the whole component, and that of a variable is what
follows the colon. A component can thus be written again from the token's value
(`IsNumber`, `IsVariable`).
-/

namespace LogoSyntax

open Text

/-- The text is a word, and as a word it is the number with this text. -/
def IsNumber (text : String) : Prop :=
  IsWord text.toList ∧ classify text.toList = some (.number, some text)

/-- A colon and the name are a word, and as a word they are the variable of that name. -/
def IsVariable (name : String) : Prop :=
  IsWord (':' :: name.toList) ∧ classify (':' :: name.toList) = some (.variableName, some name)

/-- A component is read by one of the shapes of the table, or as a keyword. -/
theorem exists_shape_of_classify {cs : List Char} {kind : TokenKind} {value : Option String}
    (h : classify cs = some (kind, value)) (hk : kind.isKeyword = false) :
    ∃ s ∈ Shape.table, s.fits cs = true ∧ s.kind = kind ∧ value = s.payload.of cs := by
  obtain ⟨s, hs, hr⟩ := Option.map_eq_some_iff.1 h
  have hfits : s.fits cs = true := by simpa using List.find?_some hs
  refine ⟨s, List.mem_of_find?_eq_some hs, hfits, ?_⟩
  unfold Shape.reading at hr
  split at hr
  · cases hr
    cases hk
  · cases hr
    exact ⟨rfl, rfl⟩

theorem isNumber_of_classify {w : List Char} {text : String} (hw : IsWord w)
    (h : classify w = some (.number, some text)) : IsNumber text := by
  obtain ⟨s, hs, -, hkind, hvalue⟩ := exists_shape_of_classify h rfl
  have htable : ∀ s ∈ Shape.table, s.kind = .number → s.payload = .whole := by decide
  rw [htable s hs hkind] at hvalue
  obtain rfl : text = String.ofList w := Option.some.inj hvalue
  rw [IsNumber, String.toList_ofList]
  exact ⟨hw, h⟩

theorem isVariable_of_classify {w : List Char} {name : String} (hw : IsWord w)
    (h : classify w = some (.variableName, some name)) : IsVariable name := by
  obtain ⟨s, hs, hfits, hkind, hvalue⟩ := exists_shape_of_classify h rfl
  have htable : ∀ s ∈ Shape.table, s.kind = .variableName →
      s.regex = .seq (.single ':') Shape.identifier ∧ s.payload = .afterFirst := by decide
  obtain ⟨hregex, hpayload⟩ := htable s hs hkind
  rw [hpayload] at hvalue
  obtain rfl : name = String.ofList w.tail := Option.some.inj hvalue
  -- The shape begins with a colon, so the component is a colon and its tail.
  rw [Shape.fits, hregex, Regex.accepts_iff, Regex.matches_seq_iff] at hfits
  obtain ⟨xs, ys, rfl, hcolon, -⟩ := hfits
  obtain rfl := Regex.matches_single_iff.1 hcolon
  rw [IsVariable, String.toList_ofList]
  exact ⟨hw, h⟩

end LogoSyntax

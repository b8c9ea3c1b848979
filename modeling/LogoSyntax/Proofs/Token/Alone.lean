-- SUMMARY: What the kind of a token says about its fields, and the tokens of words that stand alone.
import Mathlib
import LogoSyntax.Proofs.Token.Place

/-!
# Tokens on their own

A token of a source comes from a word or from the end of a line (`mem_tokenize_cases`).
Its kind says which of the two, whether it has a value, and whether it is matched
(`Token.Regular`).

The token of a word is made of that word alone. A source that is nothing but the word
has the same token, in its only line and first column, and then the end
(`tokenize_word`). So no token depends on the text around it (`tokens_stand_alone`).
-/

namespace LogoSyntax

open Text

/-! ## Fields of a token -/

namespace Token

/-- The kind of the token decides which of its fields are filled in: some kinds have a
    value, some have no raw text, and some are not matched. -/
structure Regular (t : Token) : Prop where
  value : t.value.isSome = true ↔ t.kind ∈ [.procedure, .variableName, .word, .number]
  raw : t.raw = "" ↔ t.kind = .noMore ∨ t.kind = .endOfLine
  matched : t.matched = false ↔ t.kind = .noMore ∨ t.kind = .notFound

/-- The token in another place. -/
def movedTo (t : Token) (line col : Nat) : Token :=
  { t with line, col }

end Token

theorem TokenKind.hasValue_iff {kind : TokenKind} :
    kind.hasValue = true ↔ kind ∈ [.procedure, .variableName, .word, .number] := by
  cases kind <;> simp [hasValue]

theorem Component.Sound.text_ne {w : Component} (hw : w.Sound) : w.text ≠ "" := by
  simpa [text] using hw.1

namespace Cursor

theorem value_componentToken {line : Nat} {w : Component}
    (h : (componentToken line w).matched = false) : (componentToken line w).value = none := by
  unfold componentToken at h ⊢
  split
  · next hw => simp [hw] at h
  · rfl

theorem regular_componentToken {w : Component} (hw : w.Sound) (line : Nat) :
    (componentToken line w).Regular := by
  have htext := hw.text_ne
  rcases componentToken_cases line w with hc | ⟨hm, hk⟩
  · have hmarker : ∀ kind, kind.isMarker = true → (componentToken line w).kind ≠ kind := by
      rintro kind hkind rfl
      simp [hc.isMarker] at hkind
    constructor
    · rw [hc.isSome_value, TokenKind.hasValue_iff]
    · simp [htext, hmarker .noMore rfl, hmarker .endOfLine rfl]
    · simp [hc.matched, hmarker .noMore rfl, hmarker .notFound rfl]
  · have hvalue := value_componentToken hm
    constructor
    · simp [hvalue, hk]
    · simp [htext, hk]
    · simp [hm, hk]

/-- Wherever it stands, a word has the same token but for the place. -/
theorem movedTo_componentToken (line : Nat) (w : Component) (line' col : Nat) :
    (componentToken line w).movedTo line' col = componentToken line' ⟨col, w.chars⟩ := by
  unfold componentToken
  cases classify w.chars <;> rfl

end Cursor

theorem regular_lineEnd (total line col : Nat) : (lineEnd total line col).Regular := by
  unfold lineEnd
  split
  · constructor <;> simp [Token.marker]
  · constructor <;> simp [Token.marker]

theorem raw_lineEnd (total line col : Nat) : (lineEnd total line col).raw = "" := by
  unfold lineEnd
  split <;> rfl

/-- The tokens of the runs in a line have a raw text, and so they are no markers of ends. -/
theorem kind_of_mem_words {line : Nat} {cs : List Char} {t : Token}
    (h : t ∈ (runs cs).map (Cursor.componentToken line)) :
    t.raw ≠ "" ∧ t.kind ≠ .noMore ∧ t.kind ≠ .endOfLine := by
  obtain ⟨w, hw, rfl⟩ := List.mem_map.1 h
  rw [← components_eq_runs] at hw
  have hsound := Component.sound_of_mem hw
  have hraw : (Cursor.componentToken line w).raw ≠ "" := by
    rw [Cursor.raw_componentToken]
    exact hsound.text_ne
  exact ⟨hraw, not_or.1 (mt (Cursor.regular_componentToken hsound line).raw.2 hraw)⟩

/-! ## Tokens of a source -/

/-- A token of a source is that of a word, or it marks the end of a line. -/
theorem mem_tokenize_cases {source : String} {t : Token} (h : t ∈ tokenize source) :
    (∃ line w, Component.Sound w ∧ t = Cursor.componentToken line w) ∨
      ∃ total line col, t = lineEnd total line col := by
  rw [tokenize_eq_upToUnmatched] at h
  obtain ⟨line, -, ht⟩ := List.mem_flatMap.1 ((upToUnmatched_sublist _).subset h)
  rcases List.mem_append.1 ht with ht | ht
  · obtain ⟨w, hw, rfl⟩ := List.mem_map.1 ht
    rw [← components_eq_runs] at hw
    exact .inl ⟨_, w, Component.sound_of_mem hw, rfl⟩
  · exact .inr ⟨_, _, _, List.mem_singleton.1 ht⟩

theorem regular_of_mem_tokenize {source : String} {t : Token} (h : t ∈ tokenize source) :
    t.Regular := by
  rcases mem_tokenize_cases h with ⟨line, w, hw, rfl⟩ | ⟨total, line, col, rfl⟩
  · exact Cursor.regular_componentToken hw line
  · exact regular_lineEnd total line col

/-! ## Words alone -/

theorem trim_word {w : List Char} (hw : IsWord w) : trim w = w := by
  refine trim_eq_self (fun c rest hc => hw.2 c ?_) fun front c hc => hw.2 c ?_
  · simp [hc]
  · simp [hc]

/-- In front of a source that is one word, a cursor stands at that word, in the first
    column of the only line. -/
theorem Cursor.ofSource_word {w : List Char} (hw : IsWord w) :
    ofSource (String.ofList w) = ⟨1, w.length + 1, [⟨1, w⟩], []⟩ := by
  have hcomponents : LogoSyntax.components w = [⟨1, w⟩] := by
    have happend : componentsFrom 1 (w ++ []) = [⟨1, w⟩] := componentsFrom_word 1 hw (by simp)
    rwa [List.append_nil] at happend
  rw [ofSource, sourceLines, String.toList_ofList, trim_word hw,
    lines_of_not_mem (newline_not_mem hw)]
  simp [ofLines, Line.ofChars, hcomponents]

/-- A source that is one word has the token of that word and, if it is matched, the end. -/
theorem tokenize_word {w : List Char} (hw : IsWord w) :
    tokenize (String.ofList w) = Cursor.componentToken 1 ⟨1, w⟩ ::
      if (Cursor.componentToken 1 ⟨1, w⟩).matched then
        [.marker .noMore false 1 (w.length + 1)]
      else [] := by
  have hrest : (⟨1, w.length + 1, [⟨1, w⟩], []⟩ : Cursor).rest =
      [Cursor.componentToken 1 ⟨1, w⟩, .marker .noMore false 1 (w.length + 1)] := by
    simp [Cursor.rest, lineEnd]
  rw [tokenize, Cursor.tokens_eq_upToUnmatched, Cursor.ofSource_word hw, hrest]
  cases h : (Cursor.componentToken 1 ⟨1, w⟩).matched with
  | true =>
    rw [upToUnmatched_cons_of_matched h, upToUnmatched_cons_of_not_matched rfl]
    rfl
  | false =>
    rw [upToUnmatched_cons_of_not_matched h]
    rfl

/-! ## Tokens and their surroundings -/

/-- The raw text of a token is read, alone, to that token in the first place of a source. -/
theorem tokenize_raw {source : String} {t : Token} (ht : t ∈ tokenize source)
    (hraw : t.raw ≠ "") :
    tokenize t.raw = t.movedTo 1 1 ::
      if t.matched then [.marker .noMore false 1 (t.raw.length + 1)] else [] := by
  rcases mem_tokenize_cases ht with ⟨line, w, hw, rfl⟩ | ⟨total, line, col, rfl⟩
  · have hmatched : (Cursor.componentToken line w).matched =
        (Cursor.componentToken 1 ⟨1, w.chars⟩).matched := by
      rw [Cursor.matched_componentToken, Cursor.matched_componentToken]
    have hlength : w.text.length = w.chars.length := String.length_ofList
    rw [Cursor.movedTo_componentToken, hmatched, Cursor.raw_componentToken, hlength]
    exact tokenize_word hw
  · exact absurd (raw_lineEnd total line col) hraw

/-- The kind of a token decides which of its fields are filled in, and the last token
    alone is not matched. What a token with a raw text is does not depend on the text
    around it: alone, the raw text is read to that token, in the first line and column. -/
theorem tokens_stand_alone (source : String) :
    (∀ t ∈ tokenize source, t.Regular ∧
      (t.raw ≠ "" → tokenize t.raw = t.movedTo 1 1 ::
        if t.matched then [.marker .noMore false 1 (t.raw.length + 1)] else [])) ∧
    ∃ front last, tokenize source = front ++ [last] ∧ last.matched = false ∧
      ∀ t ∈ front, t.matched = true := by
  refine ⟨fun t ht => ⟨regular_of_mem_tokenize ht, tokenize_raw ht⟩, ?_⟩
  obtain ⟨last, hlast, hm, -⟩ := tokenize_spec source
  exact ⟨_, last, hlast, hm, fun t ht => (List.mem_filter.1 ht).2⟩

/-- A variable on the second line, behind a word in quotes and in front of a component
    that no shape fits. -/
theorem variable_stands_alone :
    (⟨.variableName, ":x", some "x", true, 2, 3⟩ : Token) ∈ tokenize "print \"a\n  :x 1.2.3" ∧
      tokenize ":x" =
        [⟨.variableName, ":x", some "x", true, 1, 1⟩, .marker .noMore false 1 3] := by
  have htokens : tokenize "print \"a\n  :x 1.2.3" =
      [⟨.procedure, "print", some "print", true, 1, 1⟩, ⟨.word, "\"a", some "a", true, 1, 7⟩,
        .marker .endOfLine true 1 9, ⟨.variableName, ":x", some "x", true, 2, 3⟩,
        ⟨.notFound, "1.2.3", none, false, 2, 6⟩] := by
    cbv
  have hmem : (⟨.variableName, ":x", some "x", true, 2, 3⟩ : Token) ∈
      tokenize "print \"a\n  :x 1.2.3" := by
    simp [htokens]
  exact ⟨hmem, ((tokens_stand_alone _).1 _ hmem).2 (by decide)⟩

end LogoSyntax

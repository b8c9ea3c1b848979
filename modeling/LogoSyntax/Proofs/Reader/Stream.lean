-- SUMMARY: Streams of significant tokens: what is left of a source's tokens once the ends of lines are dropped.
import LogoSyntax.Cursor

/-!
# Streams

The grammar sees the tokens of a source without the ends of lines. What it sees
is a stream: classified tokens, and behind them one token that marks the end,
be it the end of the source or a component that no shape fits. The main
statement is that the tokens in front of a cursor form a stream
(`Cursor.stream_significant`).
-/

namespace LogoSyntax

namespace TokenKind

/-- Whether nothing was recognized at a token of this kind. -/
def isEnd : TokenKind → Bool
  | noMore | notFound => true
  | _ => false

/-- Whether tokens of this kind come from no component that was recognized. -/
def isMarker : TokenKind → Bool
  | noMore | notFound | endOfLine => true
  | _ => false

theorem isEnd_of_isMarker {kind : TokenKind} (h : kind.isMarker = false) : kind.isEnd = false := by
  cases kind <;> simp_all [isMarker, isEnd]

theorem isEnd_of_hasValue {kind : TokenKind} (h : kind.hasValue = true) : kind.isEnd = false := by
  cases kind <;> simp_all [hasValue, isEnd]

theorem ne_endOfLine_of_isMarker {kind : TokenKind} (h : kind.isMarker = false) :
    kind ≠ .endOfLine := by
  rintro rfl
  cases h

theorem ne_endOfLine_of_isEnd {kind : TokenKind} (h : kind.isEnd = true) :
    kind ≠ .endOfLine := by
  rintro rfl
  cases h

end TokenKind

namespace Token

/-- The token of a component that some shape fits. -/
structure Classified (t : Token) : Prop where
  matched : t.matched = true
  isMarker : t.kind.isMarker = false
  isSome_value : t.value.isSome = t.kind.hasValue

theorem Classified.isEnd {t : Token} (h : t.Classified) : t.kind.isEnd = false :=
  TokenKind.isEnd_of_isMarker h.isMarker

/-- The tokens that matter to the grammar. -/
def significant (ts : List Token) : List Token :=
  ts.filter (fun t => t.kind ≠ .endOfLine)

@[simp] theorem significant_nil : significant [] = [] := rfl

theorem significant_append (ts us : List Token) :
    significant (ts ++ us) = significant ts ++ significant us :=
  List.filter_append ts us

theorem significant_cons_of_ne {t : Token} (h : t.kind ≠ .endOfLine) (ts : List Token) :
    significant (t :: ts) = t :: significant ts := by
  simp [significant, h]

theorem significant_cons_endOfLine {t : Token} (h : t.kind = .endOfLine) (ts : List Token) :
    significant (t :: ts) = significant ts := by
  simp [significant, h]

end Token

/-- Classified tokens, and behind them one token that marks the end. -/
inductive Stream : List Token → Prop where
  | last {t : Token} (hm : t.matched = false) (hk : t.kind.isEnd = true) : Stream [t]
  | cons {t : Token} {ts : List Token} (ht : t.Classified) (h : Stream ts) : Stream (t :: ts)

namespace Stream

theorem ne_nil {ts : List Token} (h : Stream ts) : ts ≠ [] := by
  cases h <;> simp

/-- A token with others behind it is classified. -/
theorem uncons {t : Token} {ts : List Token} (h : Stream (t :: ts)) (hts : ts ≠ []) :
    t.Classified ∧ Stream ts := by
  cases h with
  | last hm hk => exact absurd rfl hts
  | cons ht h => exact ⟨ht, h⟩

/-- A token of a stream that does not mark the end is classified, and the stream
    goes on behind it. -/
theorem tail {t : Token} {ts : List Token} (h : Stream (t :: ts)) (hk : t.kind.isEnd = false) :
    t.Classified ∧ Stream ts := by
  cases h with
  | last hm hk' => simp [hk] at hk'
  | cons ht h => exact ⟨ht, h⟩

/-- Nothing stands behind the token that marks the end. -/
theorem eq_nil {t : Token} {ts : List Token} (h : Stream (t :: ts)) (hk : t.kind.isEnd = true) :
    ts = [] := by
  cases h with
  | last _ _ => rfl
  | cons ht h => simp [ht.isEnd] at hk

/-- The tokens in front of others are classified, and the others are a stream. -/
theorem split {ts us : List Token} (h : Stream (ts ++ us)) (hu : us ≠ []) :
    (∀ t ∈ ts, t.Classified) ∧ Stream us := by
  induction ts with
  | nil => exact ⟨by simp, h⟩
  | cons t ts ih =>
    obtain ⟨ht, hs⟩ := uncons h (by simp [hu])
    obtain ⟨hts, hus⟩ := ih hs
    exact ⟨List.forall_mem_cons.2 ⟨ht, hts⟩, hus⟩

/-- Classified tokens in front of a token that marks the end are a stream. -/
theorem of_classified {ts : List Token} {last : Token} (hts : ∀ t ∈ ts, t.Classified)
    (hm : last.matched = false) (hk : last.kind.isEnd = true) : Stream (ts ++ [last]) := by
  induction ts with
  | nil => exact .last hm hk
  | cons t ts ih =>
    obtain ⟨ht, hts⟩ := List.forall_mem_cons.1 hts
    exact .cons ht (ih hts)

/-- The token that marks the end comes last. -/
theorem exists_last {ts : List Token} (h : Stream ts) :
    ∃ front last, ts = front ++ [last] ∧ last.matched = false := by
  induction h with
  | last hm hk => exact ⟨[], _, rfl, hm⟩
  | cons ht h ih =>
    obtain ⟨front, last, rfl, hm⟩ := ih
    exact ⟨_ :: front, last, rfl, hm⟩

end Stream

/-! ## Classification -/

/-- The kind that a component is given is no marker, and decides whether it
    comes with a value. -/
theorem classify_eq_some {cs : List Char} {kind : TokenKind} {value : Option String}
    (h : classify cs = some (kind, value)) :
    kind.isMarker = false ∧ value.isSome = kind.hasValue := by
  have htable : ∀ s ∈ Shape.table, s.kind.isMarker = false ∧
      (s.payload = .nothing ↔ s.kind.hasValue = false) := by decide
  obtain ⟨s, hs, hr⟩ := Option.map_eq_some_iff.1 h
  obtain ⟨hmarker, hvalue⟩ := htable s (List.mem_of_find?_eq_some hs)
  unfold Shape.reading at hr
  split at hr
  · cases hr
    exact ⟨rfl, rfl⟩
  · cases hr
    refine ⟨hmarker, ?_⟩
    cases hp : s.payload with
    | nothing => simp [Payload.of, hvalue.1 hp]
    | whole =>
      cases hv : s.kind.hasValue with
      | true => rfl
      | false => simp [hvalue.2 hv] at hp
    | afterFirst =>
      cases hv : s.kind.hasValue with
      | true => rfl
      | false => simp [hvalue.2 hv] at hp

namespace Cursor

/-- A component's token is classified, or nothing was recognized at it. -/
theorem componentToken_cases (line : Nat) (w : Component) :
    (componentToken line w).Classified ∨
      ((componentToken line w).matched = false ∧ (componentToken line w).kind = .notFound) := by
  cases h : classify w.chars with
  | none => exact .inr (by simp [componentToken, h])
  | some reading =>
    obtain ⟨kind, value⟩ := reading
    obtain ⟨hmarker, hvalue⟩ := classify_eq_some h
    exact .inl ⟨by simp [componentToken, h], by simpa [componentToken, h] using hmarker,
      by simpa [componentToken, h] using hvalue⟩

/-- The token in front of a cursor is classified, the end of a line, or unmatched. -/
theorem token_cases (c : Cursor) :
    c.token.Classified ∨ (c.token.matched = true ∧ c.token.kind = .endOfLine) ∨
      (c.token.matched = false ∧ c.token.kind.isEnd = true) := by
  rcases c with ⟨line, endCol, ahead, later⟩
  cases ahead with
  | cons w ws =>
    rcases componentToken_cases line w with h | ⟨hm, hk⟩
    · exact .inl h
    · exact .inr (.inr ⟨hm, by rw [show Cursor.token _ = componentToken line w from rfl, hk]; rfl⟩)
  | nil =>
    cases later with
    | nil => exact .inr (.inr ⟨rfl, rfl⟩)
    | cons next rest => exact .inr (.inl ⟨rfl, rfl⟩)

/-! ## The tokens in front of a cursor -/

theorem tokens_of_matched {c : Cursor} (h : c.token.matched = true) :
    c.tokens = c.token :: c.advance.tokens := by
  rw [tokens, visited]
  simp [h, tokens]

theorem tokens_of_not_matched {c : Cursor} (h : c.token.matched = false) :
    c.tokens = [c.token] := by
  rw [tokens, visited]
  simp [h]

/-- What holds of the list that ends in an unmatched token and is preserved by
    putting a matched token in front holds of the tokens in front of a cursor. -/
theorem tokens_induction {motive : Cursor → Prop}
    (last : ∀ c : Cursor, c.token.matched = false → motive c)
    (step : ∀ c : Cursor, c.token.matched = true → motive c.advance → motive c) (c : Cursor) :
    motive c := by
  cases h : c.token.matched with
  | false => exact last c h
  | true => exact step c h (tokens_induction last step c.advance)
termination_by c.size
decreasing_by exact size_advance_lt h

theorem stream_significant (c : Cursor) : Stream (Token.significant c.tokens) := by
  induction c using tokens_induction with
  | last c h =>
    rcases c.token_cases with hc | ⟨hm, _⟩ | ⟨hm, hk⟩
    · simp [hc.matched] at h
    · simp [hm] at h
    · rw [tokens_of_not_matched h,
        Token.significant_cons_of_ne (TokenKind.ne_endOfLine_of_isEnd hk)]
      exact .last hm hk
  | step c h ih =>
    rw [tokens_of_matched h]
    rcases c.token_cases with hc | ⟨_, hk⟩ | ⟨hm, _⟩
    · rw [Token.significant_cons_of_ne (TokenKind.ne_endOfLine_of_isMarker hc.isMarker)]
      exact .cons hc ih
    · rw [Token.significant_cons_endOfLine hk]
      exact ih
    · simp [hm] at h

/-- The components in front of a cursor. -/
def components (c : Cursor) : List Component :=
  c.ahead ++ c.later.flatMap Line.components

theorem components_ofSource (source : String) :
    (ofSource source).components = (sourceLines source).flatMap Line.components := by
  unfold ofSource
  cases sourceLines source with
  | nil => rfl
  | cons first rest => simp [ofLines, components]

/-- All tokens but the last are matched, and the last one tells whether every
    component fits some shape. -/
theorem tokens_spec (c : Cursor) :
    ∃ last, c.tokens = c.matchedTokens ++ [last] ∧ last.matched = false ∧
      ((last.kind = .noMore ∧ ∀ w ∈ c.components, (classify w.chars).isSome = true) ∨
        (last.kind = .notFound ∧ ∃ w ∈ c.components, classify w.chars = none)) := by
  induction c using tokens_induction with
  | last c h =>
    refine ⟨c.token, by simp [matchedTokens, tokens_of_not_matched h, h], h, ?_⟩
    rcases c with ⟨line, endCol, ahead, later⟩
    cases ahead with
    | cons w ws =>
      have hw : classify w.chars = none := by
        have hsome := (matched_componentToken line w).symm.trans h
        simpa using hsome
      refine .inr ⟨by simp [token, componentToken, hw], w, by simp [components], hw⟩
    | nil =>
      cases later with
      | nil => exact .inl ⟨rfl, by simp [components]⟩
      | cons next rest => simp [token, Token.marker] at h
  | step c h ih =>
    obtain ⟨last, hlast, hm, hkind⟩ := ih
    refine ⟨last, ?_, hm, ?_⟩
    · rw [matchedTokens, tokens_of_matched h, List.filter_cons_of_pos h, List.cons_append]
      exact congrArg _ hlast
    · rcases c with ⟨line, endCol, ahead, later⟩
      cases ahead with
      | cons w ws =>
        have hw : (classify w.chars).isSome = true := (matched_componentToken line w).symm.trans h
        have hne : classify w.chars ≠ none := by
          intro hnone
          simp [hnone] at hw
        simpa [components, advance, hw, hne] using hkind
      | nil =>
        cases later with
        | nil => simp [token, Token.marker] at h
        | cons next rest => simpa [components, advance] using hkind

/-- A cursor has at most one token more in front of it than it can be moved past. -/
theorem length_tokens_le (c : Cursor) : c.tokens.length ≤ c.size + 1 := by
  induction c using tokens_induction with
  | last c h => simp [tokens_of_not_matched h]
  | step c h ih =>
    have := size_advance_lt h
    simp only [tokens_of_matched h, List.length_cons]
    omega

end Cursor

end LogoSyntax

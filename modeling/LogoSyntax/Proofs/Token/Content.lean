-- SUMMARY: The tokens of a source apart from their places, read off its lines of words.
import LogoSyntax.Proofs.Reader.Stream
import LogoSyntax.Proofs.Text.Layout

/-!
# Contents

Apart from their places, the tokens of a source are decided by its lines of
words: `scan` reads them off without a cursor (`content_tokenize`).
-/

namespace LogoSyntax

open Text

/-- What a token says apart from its place: kind, raw text, value, and whether it
    is matched. -/
def Token.content (t : Token) : TokenKind × String × Option String × Bool :=
  (t.kind, t.raw, t.value, t.matched)

/-! ## Lines of words -/

/-- The contents of the tokens of a line of words and the lines behind it. -/
def scan : List (List Char) → List (List (List Char)) →
    List (TokenKind × String × Option String × Bool)
  | w :: ws, later =>
    match classify w with
    | some (kind, value) => (kind, String.ofList w, value, true) :: scan ws later
    | none => [(.notFound, String.ofList w, none, false)]
  | [], next :: rest => (.endOfLine, "", none, true) :: scan next rest
  | [], [] => [(.noMore, "", none, false)]
termination_by ws later => (later.length, ws.length)

/-- The contents of the tokens of some lines of words. -/
def scanLines : List (List (List Char)) → List (TokenKind × String × Option String × Bool)
  | [] => scan [] []
  | first :: rest => scan first rest

theorem Cursor.content_tokens (c : Cursor) :
    c.tokens.map Token.content = scan (c.ahead.map Component.chars)
      (c.later.map fun line => line.components.map Component.chars) := by
  induction c using tokens_induction with
  | last c h =>
    rw [tokens_of_not_matched h]
    rcases c with ⟨line, endCol, ahead, later⟩
    cases ahead with
    | cons w ws =>
      have hw : classify w.chars = none := by
        simpa using (matched_componentToken line w).symm.trans h
      simp [scan, hw, token, componentToken, Token.content, Component.text]
    | nil =>
      cases later with
      | nil => simp [scan, token, Token.marker, Token.content]
      | cons next rest => simp [token, Token.marker] at h
  | step c h ih =>
    rw [tokens_of_matched h, List.map_cons, ih]
    rcases c with ⟨line, endCol, ahead, later⟩
    cases ahead with
    | cons w ws =>
      obtain ⟨⟨kind, value⟩, hw⟩ :=
        Option.isSome_iff_exists.1 ((matched_componentToken line w).symm.trans h)
      simp [scan, hw, token, advance, componentToken, Token.content, Component.text]
    | nil =>
      cases later with
      | nil => simp [token, Token.marker] at h
      | cons next rest => simp [scan, token, advance, Token.marker, Token.content]

/-- The lines of words of a source decide its tokens, apart from their places. -/
theorem content_tokenize (source : String) :
    (tokenize source).map Token.content = scanLines (wordLines source.toList) := by
  rw [tokenize, Cursor.content_tokens, Cursor.ofSource, sourceLines, wordLines]
  cases lines (trim source.toList) with
  | nil => rfl
  | cons first rest => simp [Cursor.ofLines, scanLines, Line.ofChars, Function.comp_def]

theorem exists_word_of_mem_scan {ws : List (List Char)} {later : List (List (List Char))}
    {content : TokenKind × String × Option String × Bool} (h : content ∈ scan ws later)
    (hk : content.1.isMarker = false) :
    ∃ w, (w ∈ ws ∨ ∃ line ∈ later, w ∈ line) ∧ classify w = some (content.1, content.2.2.1) := by
  fun_induction scan ws later with
  | case1 w ws later kind value hw ih =>
    rcases List.mem_cons.1 h with rfl | h
    · exact ⟨w, .inl List.mem_cons_self, hw⟩
    · obtain ⟨v, hv, hc⟩ := ih h
      exact ⟨v, hv.imp_left (List.mem_cons_of_mem w), hc⟩
  | case2 w ws later hw =>
    obtain rfl := List.mem_singleton.1 h
    cases hk
  | case3 next rest ih =>
    rcases List.mem_cons.1 h with rfl | h
    · cases hk
    · obtain ⟨v, hv, hc⟩ := ih h
      rcases hv with hv | ⟨line, hline, hv⟩
      · exact ⟨v, .inr ⟨next, List.mem_cons_self, hv⟩, hc⟩
      · exact ⟨v, .inr ⟨line, List.mem_cons_of_mem next hline, hv⟩, hc⟩
  | case4 =>
    obtain rfl := List.mem_singleton.1 h
    cases hk

/-- A token of a source that is no marker comes from a word. -/
theorem exists_word_of_mem_tokenize {source : String} {t : Token} (ht : t ∈ tokenize source)
    (hk : t.kind.isMarker = false) : ∃ w, IsWord w ∧ classify w = some (t.kind, t.value) := by
  have hmem : t.content ∈ scanLines (wordLines source.toList) := by
    rw [← content_tokenize]
    exact List.mem_map_of_mem ht
  have hwords := isWord_of_mem_wordLines source.toList
  cases hls : wordLines source.toList with
  | nil =>
    rw [hls] at hmem
    obtain ⟨w, hw, -⟩ := exists_word_of_mem_scan hmem hk
    simp at hw
  | cons first rest =>
    rw [hls] at hmem hwords
    obtain ⟨w, hw, hc⟩ := exists_word_of_mem_scan hmem hk
    refine ⟨w, ?_, hc⟩
    rcases hw with hw | ⟨line, hline, hw⟩
    · exact hwords first List.mem_cons_self w hw
    · exact hwords line (List.mem_cons_of_mem first hline) w hw

end LogoSyntax

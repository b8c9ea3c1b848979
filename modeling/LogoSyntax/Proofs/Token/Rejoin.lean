-- SUMMARY: What tokenizing makes of a source that was rebuilt from tokens.
import LogoSyntax.Proofs.Token.Content
import LogoSyntax.Token.Rejoin

/-!
# Rejoined source

A rejoined source is the layout of the lines of words of the source it comes
from, cut off behind the first word that no shape fits (`rejoinFrom_eq_layout`).
The tokens end there anyway, so rejoining changes the places of tokens and
nothing else.
-/

namespace LogoSyntax

open Text

/-! ## Cutting -/

/-- The lines of words up to the first word that no shape fits. -/
def cut : List (List Char) → List (List (List Char)) → List (List (List Char))
  | w :: ws, later =>
    if (classify w).isSome then (cut ws later).modifyHead (w :: ·) else [[w]]
  | [], next :: rest => [] :: cut next rest
  | [], [] => [[]]
termination_by ws later => (later.length, ws.length)

theorem exists_cut_eq_cons (ws : List (List Char)) (later : List (List (List Char))) :
    ∃ first rest, cut ws later = first :: rest := by
  fun_induction cut ws later with
  | case1 w ws later hw ih =>
    obtain ⟨first, rest, h⟩ := ih
    exact ⟨w :: first, rest, by rw [h]; rfl⟩
  | case2 w ws later hw => exact ⟨[w], [], rfl⟩
  | case3 next rest ih => exact ⟨[], _, rfl⟩
  | case4 => exact ⟨[], [], rfl⟩

/-- No token is lost by cutting. -/
theorem scanLines_cut (ws : List (List Char)) (later : List (List (List Char))) :
    scanLines (cut ws later) = scan ws later := by
  fun_induction cut ws later with
  | case1 w ws later hw ih =>
    obtain ⟨first, rest, h⟩ := exists_cut_eq_cons ws later
    obtain ⟨⟨kind, value⟩, hw⟩ := Option.isSome_iff_exists.1 hw
    rw [h] at ih ⊢
    simp only [List.modifyHead_cons, scanLines] at ih ⊢
    rw [scan, scan, hw]
    simp only [ih]
  | case2 w ws later hw =>
    have hw : classify w = none := by simpa using hw
    simp [scanLines, scan, hw]
  | case3 next rest ih =>
    obtain ⟨first, rest', h⟩ := exists_cut_eq_cons next rest
    rw [h] at ih ⊢
    simp only [scanLines] at ih ⊢
    rw [scan, scan, ih]
  | case4 => rfl

theorem mem_of_mem_cut {ws : List (List Char)} {later : List (List (List Char))} :
    ∀ line ∈ cut ws later, ∀ w ∈ line, w ∈ ws ∨ ∃ l ∈ later, w ∈ l := by
  fun_induction cut ws later with
  | case1 w ws later hw ih =>
    obtain ⟨first, rest, h⟩ := exists_cut_eq_cons ws later
    rw [h] at ih ⊢
    intro line hline v hv
    rcases List.mem_cons.1 hline with rfl | hline
    · rcases List.mem_cons.1 hv with rfl | hv
      · exact .inl List.mem_cons_self
      · exact (ih first List.mem_cons_self v hv).imp_left (List.mem_cons_of_mem w)
    · exact (ih line (List.mem_cons_of_mem first hline) v hv).imp_left (List.mem_cons_of_mem w)
  | case2 w ws later hw => simp
  | case3 next rest ih =>
    intro line hline v hv
    rcases List.mem_cons.1 hline with rfl | hline
    · cases hv
    · rcases ih line hline v hv with hmem | ⟨l, hl, hmem⟩
      · exact .inr ⟨next, List.mem_cons_self, hmem⟩
      · exact .inr ⟨l, List.mem_cons_of_mem next hl, hmem⟩
  | case4 => simp

/-- Nothing is cut off, or the last line ends with the word behind which it was cut. -/
theorem cut_eq_or (ws : List (List Char)) (later : List (List (List Char))) :
    cut ws later = ws :: later ∨ ∃ front line w, cut ws later = front ++ [line ++ [w]] := by
  fun_induction cut ws later with
  | case1 w ws later hw ih =>
    rcases ih with h | ⟨front, line, v, h⟩
    · exact .inl (by rw [h]; rfl)
    · cases front with
      | nil => exact .inr ⟨[], w :: line, v, by rw [h]; rfl⟩
      | cons first front => exact .inr ⟨(w :: first) :: front, line, v, by rw [h]; rfl⟩
  | case2 w ws later hw => exact .inr ⟨[], [], w, rfl⟩
  | case3 next rest ih =>
    rcases ih with h | ⟨front, line, v, h⟩
    · exact .inl (by rw [h])
    · exact .inr ⟨[] :: front, line, v, by rw [h]; rfl⟩
  | case4 => exact .inl rfl

theorem tight_cut {first : List (List Char)} {rest : List (List (List Char))}
    (h : Tight (first :: rest)) : Tight (cut first rest) := by
  rcases cut_eq_or first rest with hcut | ⟨front, line, w, hcut⟩
  · rwa [hcut]
  rcases h with hnil | ⟨⟨first, rest, hls, hfirst⟩, -⟩
  · obtain ⟨rfl, rfl⟩ := List.cons.inj hnil
    exact .inl (by simp [cut])
  · obtain ⟨rfl, rfl⟩ := List.cons.inj hls
    obtain ⟨v, vs, rfl⟩ := List.exists_cons_of_ne_nil hfirst
    refine .inr ⟨?_, front, line ++ [w], hcut, by simp⟩
    rw [cut]
    split
    · obtain ⟨head, tail, h⟩ := exists_cut_eq_cons vs rest
      exact ⟨v :: head, tail, by rw [h]; rfl, by simp⟩
    · exact ⟨[v], [], rfl, by simp⟩

/-! ## Rejoining -/

/-- A rejoined text shows nothing of the places of the tokens. -/
theorem rejoinFrom_congr {ts us : List Token} (h : ts.map Token.content = us.map Token.content)
    (fresh : Bool) : Token.rejoinFrom fresh ts = Token.rejoinFrom fresh us := by
  induction ts generalizing us fresh with
  | nil =>
    obtain rfl : us = [] := by simpa using h.symm
    rfl
  | cons t ts ih =>
    obtain ⟨u, us, rfl, hu, hus⟩ := List.map_eq_cons_iff.1 h.symm
    simp only [Token.content, Prod.mk.injEq] at hu
    obtain ⟨hk, hr, -, -⟩ := hu
    simp only [Token.rejoinFrom, hk, hr, ih hus.symm]

/-- Rejoining lays out the words up to the first one that no shape fits. -/
theorem rejoinFrom_eq_layout {ws : List (List Char)} {later : List (List (List Char))}
    {ts : List Token} (fresh : Bool) (h : ts.map Token.content = scan ws later)
    (hws : ∀ w ∈ ws, w ≠ []) (hlater : ∀ line ∈ later, ∀ w ∈ line, w ≠ []) :
    Token.rejoinFrom fresh ts = layout fresh (cut ws later) := by
  fun_induction cut ws later generalizing ts fresh with
  | case1 w ws later hw ih =>
    obtain ⟨hw', hws⟩ := List.forall_mem_cons.1 hws
    obtain ⟨⟨kind, value⟩, hw⟩ := Option.isSome_iff_exists.1 hw
    rw [scan, hw] at h
    obtain ⟨t, ts, rfl, ht, hts⟩ := List.map_eq_cons_iff.1 h
    simp only [Token.content, Prod.mk.injEq] at ht
    obtain ⟨hkind, hraw, -, -⟩ := ht
    have hne : t.kind ≠ .endOfLine :=
      hkind ▸ TokenKind.ne_endOfLine_of_isMarker (classify_eq_some hw).1
    obtain ⟨first, rest, hcut⟩ := exists_cut_eq_cons ws later
    have ih := ih false hts hws hlater
    rw [hcut] at ih ⊢
    rw [List.modifyHead_cons, layout_cons_cons, ← ih]
    simp [Token.rejoinFrom, hne, hraw, hw']
  | case2 w ws later hw =>
    have hnone : classify w = none := by simpa using hw
    rw [scan, hnone] at h
    obtain ⟨t, ts, rfl, ht, hts⟩ := List.map_eq_cons_iff.1 h
    obtain rfl : ts = [] := by simpa using hts
    simp only [Token.content, Prod.mk.injEq] at ht
    obtain ⟨hkind, hraw, -, -⟩ := ht
    simp [Token.rejoinFrom, hkind, hraw, hws w List.mem_cons_self, layout, spread]
  | case3 next rest ih =>
    rw [scan] at h
    obtain ⟨t, ts, rfl, ht, hts⟩ := List.map_eq_cons_iff.1 h
    simp only [Token.content, Prod.mk.injEq] at ht
    obtain ⟨hnext, hrest⟩ := List.forall_mem_cons.1 hlater
    obtain ⟨first, rest', hcut⟩ := exists_cut_eq_cons next rest
    have ih := ih true hts hnext hrest
    rw [hcut] at ih ⊢
    simp [Token.rejoinFrom, ht.1, ih, layout, spread]
  | case4 =>
    rw [scan] at h
    obtain ⟨t, ts, rfl, ht, hts⟩ := List.map_eq_cons_iff.1 h
    obtain rfl : ts = [] := by simpa using hts
    simp only [Token.content, Prod.mk.injEq] at ht
    simp [Token.rejoinFrom, ht.1, ht.2.1, layout, spread]

theorem content_tokenize_rejoin (source : String) :
    (tokenize (Token.rejoin (tokenize source))).map Token.content =
      (tokenize source).map Token.content := by
  have hcontent := content_tokenize source
  have hwords := isWord_of_mem_wordLines source.toList
  have htight := tight_wordLines source.toList
  obtain ⟨first, rest, hls⟩ : ∃ first rest, wordLines source.toList = first :: rest := by
    rcases htight with h | ⟨⟨first, rest, h, -⟩, -⟩
    · exact ⟨[], [], h⟩
    · exact ⟨first, rest, h⟩
  rw [hls] at hcontent hwords htight
  obtain ⟨hfirst, hrest⟩ := List.forall_mem_cons.1 hwords
  have hjoin : Token.rejoinFrom true (tokenize source) = layout true (cut first rest) :=
    rejoinFrom_eq_layout true hcontent (fun w hw => (hfirst w hw).1)
      fun line hline w hw => (hrest line hline w hw).1
  have hcut : ∀ line ∈ cut first rest, ∀ w ∈ line, IsWord w := by
    intro line hline w hw
    rcases mem_of_mem_cut line hline w hw with h | ⟨l, hl, h⟩
    · exact hfirst w h
    · exact hrest l hl w h
  rw [content_tokenize, Token.rejoin, String.toList_ofList, hjoin,
    wordLines_layout (tight_cut htight) hcut, scanLines_cut, hcontent]
  rfl

/-- Tokenizing a rejoined source gives the same tokens in other places, and
    rejoining these gives the same source. -/
theorem tokenize_rejoin (source : String) :
    (tokenize (Token.rejoin (tokenize source))).length = (tokenize source).length ∧
    (tokenize (Token.rejoin (tokenize source))).map Token.content =
      (tokenize source).map Token.content ∧
    Token.rejoin (tokenize (Token.rejoin (tokenize source))) =
      Token.rejoin (tokenize source) := by
  have hcontent := content_tokenize_rejoin source
  refine ⟨?_, hcontent, congrArg String.ofList (rejoinFrom_congr hcontent true)⟩
  simpa using congrArg List.length hcontent

end LogoSyntax

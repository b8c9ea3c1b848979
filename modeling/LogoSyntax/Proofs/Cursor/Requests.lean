-- SUMMARY: Requests for tokens in any order: which tokens they give, where they leave the cursor, and that no index is out of bounds.
import LogoSyntax.Session
import LogoSyntax.Proofs.Cursor.Indexed
import LogoSyntax.Proofs.Reader.Stream

/-!
# Requests for tokens

The requests for tokens share one cursor, so that each of them goes on where the
last one stopped. `Cursor.Gives` says what one request does: it gives some of the
matched tokens in front of the cursor, in order, and then perhaps the last token,
but that one only with the cursor in front of it. Such steps compose
(`Cursor.Gives.trans`), and what a sequence of requests gives follows from what
each of them does (`IndexedCursor.Reachable.gives_answerAll`).

Every cursor on the way is one that the cursor by indices reaches, so that no access
to a line or to a component is out of bounds.
-/

namespace LogoSyntax

/-! ## The end of a cursor's tokens -/

namespace Cursor

variable {c : Cursor}

theorem final_of_matched (h : c.token.matched = true) : c.final = c.advance.final := by
  rw [final, dif_pos h]

theorem final_of_not_matched (h : c.token.matched = false) : c.final = c := by
  rw [final, dif_neg (by simp [h])]

theorem matchedTokens_of_matched (h : c.token.matched = true) :
    c.matchedTokens = c.token :: c.advance.matchedTokens := by
  rw [matchedTokens, tokens_of_matched h, List.filter_cons_of_pos h, matchedTokens]

theorem matchedTokens_of_not_matched (h : c.token.matched = false) : c.matchedTokens = [] := by
  rw [matchedTokens, tokens_of_not_matched h, List.filter_cons_of_neg (by simp [h]),
    List.filter_nil]

theorem final_of_matchedTokens_eq_nil (h : c.matchedTokens = []) : c.final = c := by
  cases hm : c.token.matched with
  | false => exact final_of_not_matched hm
  | true => simp [matchedTokens_of_matched hm] at h

theorem matched_of_mem_matchedTokens {t : Token} (h : t ∈ c.matchedTokens) : t.matched = true :=
  (List.mem_filter.1 h).2

theorem matched_token_final (c : Cursor) : c.final.token.matched = false := by
  induction c using tokens_induction with
  | last c h => rwa [final_of_not_matched h]
  | step c h ih => rwa [final_of_matched h]

theorem final_final (c : Cursor) : c.final.final = c.final :=
  final_of_not_matched c.matched_token_final

theorem tokens_eq_append_final (c : Cursor) : c.tokens = c.matchedTokens ++ [c.final.token] := by
  induction c using tokens_induction with
  | last c h =>
    rw [tokens_of_not_matched h, matchedTokens_of_not_matched h, final_of_not_matched h]
    rfl
  | step c h ih =>
    rw [tokens_of_matched h, matchedTokens_of_matched h, final_of_matched h, ih]
    rfl

/-- The position is that of the next token. -/
theorem position_eq (c : Cursor) : c.position = (c.token.line, c.token.col) := by
  rcases c with ⟨line, endCol, ahead, later⟩
  cases ahead with
  | cons w ws =>
    rw [token_of_component rfl, componentToken]
    split <;> rfl
  | nil => cases later <;> rfl

/-! ## Steps -/

/-- From `c` to `c'`, the tokens `ts` are given: first matched tokens in front of `c`,
    in order, and then the last token any number of times, which leaves the cursor in
    front of it. -/
structure Gives (c : Cursor) (ts : List Token) (c' : Cursor) : Prop where
  final_eq : c'.final = c.final
  exists_split : ∃ ms n, ts = ms ++ List.replicate n c.final.token ∧
    c.matchedTokens = ms ++ c'.matchedTokens ∧ (0 < n → c' = c.final)

namespace Gives

theorem refl (c : Cursor) : c.Gives [] c :=
  ⟨rfl, [], 0, rfl, rfl, by simp⟩

theorem trans {c c' c'' : Cursor} {ts us : List Token} (h : c.Gives ts c') (h' : c'.Gives us c'') :
    c.Gives (ts ++ us) c'' := by
  obtain ⟨hfinal, ms, n, rfl, hms, hn⟩ := h
  obtain ⟨hfinal', ms', n', rfl, hms', hn'⟩ := h'
  refine ⟨hfinal'.trans hfinal, ?_⟩
  rw [hfinal] at hn' ⊢
  cases n with
  | zero => exact ⟨ms ++ ms', n', by simp, by rw [hms, hms', List.append_assoc], hn'⟩
  | succ n =>
    -- The cursor was in front of the last token already, so no matched token was left.
    obtain rfl := hn (Nat.succ_pos n)
    have hnil : c.final.matchedTokens = [] := matchedTokens_of_not_matched c.matched_token_final
    rw [hnil] at hms'
    obtain ⟨rfl, hnil'⟩ := List.append_eq_nil_iff.1 hms'.symm
    refine ⟨ms, n + 1 + n', by simp, by rw [hms, hnil, hnil'], fun _ => ?_⟩
    rw [← final_of_matchedTokens_eq_nil hnil', hfinal', final_final]

theorem next (c : Cursor) : c.Gives [c.token] c.advance := by
  cases h : c.token.matched with
  | true =>
    exact ⟨(final_of_matched h).symm, [c.token], 0, rfl, matchedTokens_of_matched h, by simp⟩
  | false =>
    have hfinal := final_of_not_matched h
    rw [advance_of_not_matched h]
    exact ⟨rfl, [], 1, by rw [hfinal]; rfl, rfl, fun _ => hfinal.symm⟩

theorem nextMatched (c : Cursor) : c.Gives (c.nextMatched.1.toList) c.advance := by
  cases h : c.token.matched with
  | true => simpa [Cursor.nextMatched, h] using next c
  | false =>
    rw [advance_of_not_matched h]
    simpa [Cursor.nextMatched, h] using refl c

theorem collect (c : Cursor) : c.Gives c.matchedTokens c.final :=
  ⟨c.final_final, c.matchedTokens, 0, by simp,
    by simp [matchedTokens_of_not_matched c.matched_token_final], by simp⟩

theorem tokenize (c : Cursor) : c.Gives c.tokens c.final := by
  refine ⟨c.final_final, c.matchedTokens, 1, c.tokens_eq_append_final, ?_, fun _ => rfl⟩
  rw [matchedTokens_of_not_matched c.matched_token_final, List.append_nil]

theorem filter_append_last {c c' : Cursor} {ms : List Token}
    (h : c.matchedTokens = ms ++ c'.matchedTokens) (n : Nat) :
    (ms ++ List.replicate n c.final.token).filter (·.matched) = ms := by
  have hmatched : ∀ t ∈ ms, t.matched = true := by
    intro t ht
    exact matched_of_mem_matchedTokens (h ▸ List.mem_append_left _ ht)
  rw [List.filter_append, List.filter_eq_self.2 hmatched, List.filter_replicate,
    if_neg (by simp [c.matched_token_final]), List.append_nil]

/-- The matched tokens that are given are the first ones in front of the cursor. -/
theorem filter_matched {c c' : Cursor} {ts : List Token} (h : c.Gives ts c') :
    ts.filter (·.matched) <+: c.matchedTokens := by
  obtain ⟨-, ms, n, rfl, hms, -⟩ := h
  rw [filter_append_last hms, hms]
  exact List.prefix_append ms _

/-- A token that is not matched is the last one. It is given behind all matched
    tokens, and leaves the cursor in front of it. -/
theorem of_not_matched {c c' : Cursor} {before behind : List Token} {t : Token}
    (h : c.Gives (before ++ t :: behind) c') (ht : t.matched = false) :
    t = c.final.token ∧ before.filter (·.matched) = c.matchedTokens ∧ c' = c.final := by
  obtain ⟨-, ms, n, hts, hms, hn⟩ := h
  obtain ⟨lasts, rfl, hlasts⟩ : ∃ lasts, before = ms ++ lasts ∧
      List.replicate n c.final.token = lasts ++ t :: behind := by
    rcases List.append_eq_append_iff.1 hts with ⟨rest, rfl, hrest⟩ | h
    · cases rest with
      | nil => exact ⟨[], by simp, by simpa using hrest.symm⟩
      | cons u rest =>
        obtain rfl : t = u := (List.cons.inj hrest).1
        have hmem : t ∈ c.matchedTokens := by simp [hms]
        simp [matched_of_mem_matchedTokens hmem] at ht
    · exact h
  obtain ⟨hlength, hfirst, hrest⟩ := List.replicate_eq_append_iff.1 hlasts
  have hpos : 0 < n := by
    rw [← hlength, List.length_cons]
    omega
  obtain rfl := hn hpos
  refine ⟨(List.eq_replicate_iff.1 hrest).2 t List.mem_cons_self, ?_, rfl⟩
  rw [hfirst, filter_append_last hms, hms, matchedTokens_of_not_matched c.matched_token_final,
    List.append_nil]

end Gives

end Cursor

/-! ## Sequences of requests -/

namespace Session

/-- The tokens of a reply. -/
def Reply.given : Reply → List Token
  | .token t => [t]
  | .matched t => t.toList
  | .tokens ts => ts
  | _ => []

/-- The tokens that requests give, one after another. -/
def given (s : Session) (requests : List Request) : List Token :=
  (s.answerAll requests).flatMap Reply.given

/-- The session behind requests. -/
def after (s : Session) (requests : List Request) : Session :=
  requests.foldl (fun s request => (s.answer request).2) s

/-- The session stays where it is: the next token is `last`, which is not matched. -/
structure StandsAt (s : Session) (last : Token) : Prop where
  nextToken : s.answer .nextToken = (.token last, s)
  nextMatched : s.answer .nextMatched = (.matched none, s)
  collect : s.answer .collect = (.tokens [], s)
  tokenize : s.answer .tokenize = (.tokens [last], s)
  position : s.answer .position = (.position last.line last.col, s)

theorem given_cons (s : Session) (request : Request) (requests : List Request) :
    s.given (request :: requests) =
      (s.answer request).1.given ++ (s.answer request).2.given requests :=
  rfl

theorem after_cons (s : Session) (request : Request) (requests : List Request) :
    s.after (request :: requests) = (s.answer request).2.after requests :=
  rfl

theorem standsAt_final (c : Cursor) : (tokens c.final).StandsAt c.final.token := by
  have hm := c.matched_token_final
  have hnil := Cursor.matchedTokens_of_not_matched hm
  refine ⟨?_, ?_, ?_, ?_, ?_⟩
  · rw [answer, onCursor, Cursor.next, Cursor.advance_of_not_matched hm]
  · rw [answer, onCursor, Cursor.nextMatched, Cursor.advance_of_not_matched hm,
      if_neg (by simp [hm])]
  · rw [answer, onCursor, Cursor.collect, hnil, Cursor.final_final]
  · rw [answer, onCursor, Cursor.tokenize, Cursor.tokens_of_not_matched hm, Cursor.final_final]
  · rw [answer, Cursor.position_eq]

end Session

namespace IndexedCursor

variable {source : String}

/-- Where a cursor is reachable by indices, the end of its tokens is too. -/
theorem Reachable.exists_final {c : IndexedCursor} (h : c.Reachable source) :
    ∃ c' : IndexedCursor, c'.Reachable source ∧ c'.toCursor = c.toCursor.final := by
  generalize hd : c.toCursor = d
  induction d using Cursor.tokens_induction generalizing c with
  | last d hm => exact ⟨c, h, by rw [hd, Cursor.final_of_not_matched hm]⟩
  | step d hm ih =>
    obtain ⟨c', h', hadvance⟩ := h.exists_advance
    rw [Cursor.final_of_matched hm]
    exact ih h' (by rw [hadvance, hd])

/-- A request for tokens or for the position leads from a cursor that is reachable by
    indices to another one. -/
theorem Reachable.gives_answer {c : IndexedCursor} (h : c.Reachable source)
    {request : Session.Request} (hrequest : request ≠ .parse) :
    ∃ c' : IndexedCursor, c'.Reachable source ∧
      ((Session.tokens c.toCursor).answer request).2 = .tokens c'.toCursor ∧
      c.toCursor.Gives ((Session.tokens c.toCursor).answer request).1.given c'.toCursor := by
  obtain ⟨behind, hbehind, hadvance⟩ := h.exists_advance
  obtain ⟨last, hlast, hfinal⟩ := h.exists_final
  cases request with
  | nextToken => exact ⟨behind, hbehind, by rw [hadvance]; rfl, by rw [hadvance]; exact .next _⟩
  | nextMatched =>
    exact ⟨behind, hbehind, by rw [hadvance]; rfl, by rw [hadvance]; exact .nextMatched _⟩
  | collect => exact ⟨last, hlast, by rw [hfinal]; rfl, by rw [hfinal]; exact .collect _⟩
  | tokenize => exact ⟨last, hlast, by rw [hfinal]; rfl, by rw [hfinal]; exact .tokenize _⟩
  | position => exact ⟨c, h, rfl, .refl _⟩
  | parse => exact absurd rfl hrequest

/-- What requests one after another give is composed of what each of them gives. -/
theorem Reachable.gives_answerAll {c : IndexedCursor} (h : c.Reachable source)
    {requests : List Session.Request} (hrequests : .parse ∉ requests) :
    ∃ c' : IndexedCursor, c'.Reachable source ∧
      (Session.tokens c.toCursor).after requests = .tokens c'.toCursor ∧
      c.toCursor.Gives ((Session.tokens c.toCursor).given requests) c'.toCursor := by
  induction requests generalizing c with
  | nil => exact ⟨c, h, rfl, .refl _⟩
  | cons request requests ih =>
    obtain ⟨hrequest, hrequests⟩ := not_or.1 (mt List.mem_cons.2 hrequests)
    obtain ⟨c', h', hanswer, hgives⟩ := h.gives_answer (Ne.symm hrequest)
    obtain ⟨c'', h'', hafter, hgives'⟩ := ih h' hrequests
    refine ⟨c'', h'', ?_, ?_⟩
    · rw [Session.after_cons, hanswer, hafter]
    · rw [Session.given_cons, hanswer]
      exact hgives.trans hgives'

end IndexedCursor

/-! ## One reading -/

open Session in
/-- Requests for tokens and for the position, in any order, share one reading of a
    source. The matched tokens that they give are the first ones of the source. A
    token that is not matched is the last one of the source and comes behind all
    matched ones, and the session then stays in front of it. The position is that
    of the next token, and no index is out of bounds. -/
theorem requests_share_one_reading (source : String) (requests : List Request)
    (h : .parse ∉ requests) :
    ((ofSource source).given requests).filter (·.matched) <+:
        (tokenize source).filter (·.matched) ∧
      (∃ last, (tokenize source).getLast? = some last ∧
        (∀ before t behind, (ofSource source).given requests = before ++ t :: behind →
          t.matched = false → t = last ∧
            before.filter (·.matched) = (tokenize source).filter (·.matched)) ∧
        ((∃ t ∈ (ofSource source).given requests, t.matched = false) →
          ((ofSource source).after requests).StandsAt last)) ∧
      (∃ t s, ((ofSource source).after requests).answer .nextToken = (.token t, s) ∧
        ((ofSource source).after requests).answer .position =
          (.position t.line t.col, (ofSource source).after requests)) ∧
      (∃ c : IndexedCursor, c.Reachable source ∧
        (ofSource source).after requests = .tokens c.toCursor) ∧
      ∀ c : IndexedCursor, c.Reachable source →
        c.InBounds ∧ (∃ c', c.next? = some (c.toCursor.token, c')) ∧
          c.position? = some c.toCursor.position := by
  obtain ⟨start, hstart, -, hsource⟩ := IndexedCursor.ofSource?_eq source
  obtain ⟨c, hc, hafter, hgives⟩ := (IndexedCursor.Reachable.start hstart).gives_answerAll h
  rw [hsource] at hafter hgives
  change (ofSource source).after requests = _ at hafter
  change (Cursor.ofSource source).Gives ((ofSource source).given requests) _ at hgives
  rw [hafter]
  refine ⟨hgives.filter_matched, ⟨(Cursor.ofSource source).final.token, ?_, ?_, ?_⟩,
    ⟨c.toCursor.token, .tokens c.toCursor.advance, rfl, ?_⟩, ⟨c, hc, rfl⟩, ?_⟩
  · rw [tokenize, Cursor.tokens_eq_append_final, List.getLast?_concat]
  · intro before t behind hgiven ht
    rw [hgiven] at hgives
    obtain ⟨hlast, hbefore, -⟩ := hgives.of_not_matched ht
    exact ⟨hlast, hbefore⟩
  · rintro ⟨t, ht, hm⟩
    obtain ⟨before, behind, hgiven⟩ := List.append_of_mem ht
    rw [hgiven] at hgives
    obtain ⟨-, -, hfinal⟩ := hgives.of_not_matched hm
    rw [hfinal]
    exact standsAt_final _
  · rw [answer, Cursor.position_eq]
  · intro c hc
    obtain ⟨c', hnext, -⟩ := hc.inBounds.next?_eq
    exact ⟨hc.inBounds, ⟨c', hnext⟩, hc.inBounds.position?_eq⟩

open Session in
/-- A request for the next token gives a component that no shape fits, and the session
    stops in front of it. -/
theorem requests_stop_at_failing_component :
    .parse ∉ [Request.nextMatched, .position, .nextToken] ∧
      ∃ last, (tokenize "rt ??").getLast? = some last ∧
        ((ofSource "rt ??").after [.nextMatched, .position, .nextToken]).StandsAt last := by
  have h : .parse ∉ [Request.nextMatched, .position, .nextToken] := by decide
  have hmatched : ((ofSource "rt ??").given [.nextMatched, .position, .nextToken]).map
      Token.matched = [true, false] := by
    decide
  obtain ⟨t, ht, hm⟩ := List.mem_map.1 (hmatched ▸ List.mem_cons_of_mem _ List.mem_cons_self)
  obtain ⟨-, ⟨last, hlast, -, hstands⟩, -⟩ := requests_share_one_reading "rt ??" _ h
  exact ⟨h, last, hlast, hstands ⟨t, ht, hm⟩⟩

end LogoSyntax

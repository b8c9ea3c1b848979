-- SUMMARY: Blocks and their bodies: every derivation is parsed, and parsing accepts or refuses as the grammar says.
import LogoSyntax.Grammar.Block
import LogoSyntax.Proofs.Grammar.Item

/-!
# Blocks

A block ends with an expression, with a body or with the items of a statement.
What stands behind it must therefore continue neither an expression nor the
items of a statement (`ClosesBlock`), and nothing that can stand there does.
-/

namespace LogoSyntax

open Parse Grammar

/-! ## From derivations to runs -/

theorem DerivesBody.begins {ts : List Token} {blocks : List Block} (h : DerivesBody ts blocks) :
    ∃ t us, ts = t :: us ∧ t.kind = .left .bracket := by
  cases h with
  | mk ho h hc => exact ⟨_, _, rfl, ho⟩

/-- No body begins with a sign, so it can stand behind an expression. -/
theorem DerivesBody.not_sign {ts : List Token} {blocks : List Block} (h : DerivesBody ts blocks)
    (rest : List Token) (op : Operator) : nextKind (ts ++ rest) ≠ some (.sign op) := by
  obtain ⟨t, us, rfl, ht⟩ := h.begins
  simp [ht]

/-- A bracket that closes a body and the end of the source can stand behind any block. -/
theorem closesBlock_of_isEnd {t : Token} {rest : List Token}
    (ht : t.kind = .right .bracket ∨ t.kind = .noMore) : ClosesBlock (t :: rest) := by
  rcases ht with ht | ht
  · exact ⟨by simp, by simp [ht], by simp [beginsItem, ht, TokenKind.startsItem]⟩
  · exact ⟨by simp, by simp [ht], by simp [beginsItem, ht, TokenKind.startsItem]⟩

/-- Blocks can stand behind any block if what is behind them can. -/
theorem DerivesBlocks.closesBlock {ts rest : List Token} {blocks : List Block}
    (h : DerivesBlocks ts blocks) (hr : ClosesBlock rest) : ClosesBlock (ts ++ rest) := by
  cases h with
  | nil => exact hr
  | @cons ts us b blocks hb h =>
    rw [List.append_assoc]
    exact hb.closesBlock _

/-- A block begins with a token that starts one. -/
theorem DerivesBlock.startsBlock {t : Token} {ts : List Token} {b : Block}
    (h : DerivesBlock (t :: ts) b) : t.kind.startsBlock = true := by
  obtain ⟨u, us, hts, ⟨k, hk⟩ | hk | ⟨hk, -⟩⟩ := h.begins
  all_goals
    obtain ⟨rfl, rfl⟩ := List.cons.inj hts
    simp [hk, TokenKind.startsBlock]

mutual

/-- What is behind a keyword is parsed to its tree, one case for each shape of control. The
    expression in front of a body ends there, because no body begins with a sign. -/
theorem DerivesControl.runs {k : Keyword} {ts rest : List Token} {b : Block} {n : Nat}
    (h : DerivesControl k ts b) (hr : ClosesBlock rest) (hn : 8 * ts.length + 5 ≤ n) :
    Runs (Grammar.control k n) (ts ++ rest) (.ok b) rest := by
  obtain ⟨n, rfl⟩ : ∃ m, n = m + 1 := ⟨n - 1, by omega⟩
  have hne := hr.ne_nil
  cases h with
  | run hb =>
    rw [Grammar.control]
    exact .bind (hb.runs hne (by omega)) (.pure _)
  | @ifTrue ts us e body he hb | @repeatTimes ts us e body he hb | @whileDo ts us e body he hb
  | @untilDo ts us e body he hb =>
    simp only [List.length_append] at hn
    rw [List.append_assoc, Grammar.control]
    refine .bind (he.runs (by simp [hne]) (hb.not_sign rest) (by omega)) ?_
    exact .bind (hb.runs hne (by omega)) (.pure _)
  | @ifElse ts us vs e yes no he hy hno =>
    simp only [List.length_append] at hn
    rw [List.append_assoc, List.append_assoc, Grammar.control]
    refine .bind (he.runs (by simp [hne]) (hy.not_sign _) (by omega)) ?_
    refine .bind (hy.runs (by simp [hne]) (by omega)) ?_
    exact .bind (hno.runs hne (by omega)) (.pure _)
  | @doWhile ts us e body hb he | @doUntil ts us e body hb he =>
    simp only [List.length_append] at hn
    rw [List.append_assoc, Grammar.control]
    refine .bind (hb.runs (by simp [hne]) (by omega)) ?_
    exact .bind (he.runs hne hr.not_sign (by omega)) (.pure _)
  | output he =>
    rw [Grammar.control]
    exact .bind (he.runs hne hr.not_sign (by omega)) (.pure _)
  | stop =>
    rw [Grammar.control]
    exact .pure _
  | bye =>
    rw [Grammar.control]
    exact .pure _
termination_by n

/-- A block is parsed to its tree, if what is behind it can stand behind a block. -/
theorem DerivesBlock.runs {ts rest : List Token} {b : Block} {n : Nat} (h : DerivesBlock ts b)
    (hr : ClosesBlock rest) (hn : 8 * ts.length + 3 ≤ n) :
    Runs (block n) (ts ++ rest) (.ok b) rest := by
  obtain ⟨n, rfl⟩ : ∃ m, n = m + 1 := ⟨n - 1, by omega⟩
  rw [block]
  cases h with
  | @control t k ts b hk h =>
    simp only [List.length_cons] at hn
    refine .peek_bind ?_
    simp only [hk]
    refine .bind (.advance (by simp [hr.ne_nil])) (.bind (.record _) ?_)
    exact h.runs hr (by omega)
  | @call ts s h =>
    have hrun := h.runs (n := n) hr.ne_nil hr.not_beginsItem (by omega)
    cases h with
    | plain hp hi h =>
      refine .peek_bind ?_
      simp only [hp.1]
      exact .bind hrun (.pure _)
    | parenthesized ho hp h hc =>
      refine .peek_bind ?_
      simp only [ho]
      exact .bind hrun (.pure _)
termination_by n

/-- A body is parsed to its blocks, whatever is behind its closing bracket. -/
theorem DerivesBody.runs {ts rest : List Token} {blocks : List Block} {n : Nat}
    (h : DerivesBody ts blocks) (hr : rest ≠ []) (hn : 8 * ts.length + 1 ≤ n) :
    Runs (body n) (ts ++ rest) (.ok blocks) rest := by
  obtain ⟨n, rfl⟩ : ∃ m, n = m + 1 := ⟨n - 1, by omega⟩
  rw [body]
  cases h with
  | @mk opening closing ts blocks ho h hc =>
    simp only [List.length_cons, List.length_append, List.length_nil] at hn
    simp only [List.cons_append, List.append_assoc, List.nil_append]
    exact .bind (.expect _ ho (by simp)) (h.runs_blocksUntilBracket hc hr (by omega))
termination_by n

/-- Blocks are parsed up to the bracket that closes their body. -/
theorem DerivesBlocks.runs_blocksUntilBracket {ts rest : List Token} {closing : Token}
    {blocks : List Block} {n : Nat} (h : DerivesBlocks ts blocks)
    (hc : closing.kind = .right .bracket) (hr : rest ≠ []) (hn : 8 * ts.length + 4 ≤ n) :
    Runs (blocksUntilBracket n) (ts ++ closing :: rest) (.ok blocks) rest := by
  obtain ⟨n, rfl⟩ : ∃ m, n = m + 1 := ⟨n - 1, by omega⟩
  rw [blocksUntilBracket]
  cases h with
  | nil => exact .check_true hc (.bind (.advance hr) (.pure []))
  | @cons ts us b blocks hb h =>
    simp only [List.length_append] at hn
    have hpos : 0 < ts.length := List.length_pos_iff.2 hb.ne_nil
    rw [List.append_assoc]
    have hrun : Runs (block n) (ts ++ (us ++ closing :: rest)) (.ok b) (us ++ closing :: rest) :=
      hb.runs (h.closesBlock (closesBlock_of_isEnd (.inl hc))) (by omega)
    obtain ⟨t, ts, rfl⟩ := List.exists_cons_of_ne_nil hb.ne_nil
    have ht := hb.startsBlock
    refine .check_false (fun hk => by simp [hk, TokenKind.startsBlock] at ht) ?_
    refine .check_false (fun hk => by simp [hk, TokenKind.startsBlock] at ht) ?_
    exact .bind hrun (.bind (h.runs_blocksUntilBracket hc hr (by omega)) (.pure _))
termination_by n

end

/-- Blocks are parsed up to the end of the source. -/
theorem DerivesBlocks.runs_blocksUntilEnd {ts : List Token} {last : Token} {blocks : List Block}
    {n : Nat} (h : DerivesBlocks ts blocks) (hlast : last.kind = .noMore)
    (hn : 8 * ts.length + 4 ≤ n) :
    Runs (blocksUntilEnd n) (ts ++ [last]) (.ok blocks) [last] := by
  obtain ⟨n, rfl⟩ : ∃ m, n = m + 1 := ⟨n - 1, by omega⟩
  rw [blocksUntilEnd]
  cases h with
  | nil => exact .check_true hlast (.pure [])
  | @cons ts us b blocks hb h =>
    simp only [List.length_append] at hn
    have hpos : 0 < ts.length := List.length_pos_iff.2 hb.ne_nil
    rw [List.append_assoc]
    have hrun : Runs (block n) (ts ++ (us ++ [last])) (.ok b) (us ++ [last]) :=
      hb.runs (h.closesBlock (closesBlock_of_isEnd (.inr hlast))) (by omega)
    obtain ⟨t, ts, rfl⟩ := List.exists_cons_of_ne_nil hb.ne_nil
    have ht := hb.startsBlock
    refine .check_false (fun hk => by simp [hk, TokenKind.startsBlock] at ht) ?_
    exact .bind hrun (.bind (h.runs_blocksUntilEnd hlast (by omega)) (.pure _))
termination_by n

/-! ## Beginnings of phrases -/

theorem completable_blocksUntilBracket : Completable (Before DerivesBlocks (.right .bracket)) [] :=
  .before .nil

/-- A body can be begun and closed behind anything. -/
theorem completable_body : Completable DerivesBody [] := by
  obtain ⟨us, blocks, hus, ts, closing, rfl, hc, h⟩ := completable_blocksUntilBracket
  refine ⟨.sample (.left .bracket) "[" :: (ts ++ [closing]), blocks, ?_, .mk rfl h hc⟩
  exact List.forall_mem_cons.2 ⟨rfl, hus⟩

/-- A keyword can always be followed up to a block. -/
theorem completable_control (k : Keyword) : Completable (DerivesControl k) [] := by
  obtain ⟨us, e, hus, he⟩ := completable_expr.exists_phrase
  obtain ⟨vs, body, hvs, hb⟩ := completable_body.exists_phrase
  have huv : ∀ u ∈ us ++ vs, u.matched = true := fun u hu =>
    (List.mem_append.1 hu).elim (hus u) (hvs u)
  have hvu : ∀ u ∈ vs ++ us, u.matched = true := fun u hu =>
    (List.mem_append.1 hu).elim (hvs u) (hus u)
  cases k with
  | run => exact .of_phrase hvs (.run hb)
  | ifTrue => exact .of_phrase huv (.ifTrue he hb)
  | ifElse =>
    refine .of_phrase (fun u hu => ?_) (.ifElse he hb hb)
    rcases List.mem_append.1 hu with hu | hu
    · exact hus u hu
    · exact hvs u ((List.mem_append.1 hu).elim id id)
  | repeatTimes => exact .of_phrase huv (.repeatTimes he hb)
  | doWhile => exact .of_phrase hvu (.doWhile hb he)
  | whileDo => exact .of_phrase huv (.whileDo he hb)
  | doUntil => exact .of_phrase hvu (.doUntil hb he)
  | untilDo => exact .of_phrase huv (.untilDo he hb)
  | output => exact .of_phrase hus (.output he)
  | stop => exact .of_derives .stop
  | bye => exact .of_derives .bye

/-- Every token that starts a block can be followed up to one. -/
theorem completable_block {t : Token} (ht : t.Classified) (hk : t.kind.startsBlock = true) :
    Completable DerivesBlock [t] := by
  have hitems : Completable (Before DerivesItems (.right .parenthesis)) [] :=
    completable_itemsUntil .parenthesis
  cases h : t.kind with
  | keyword k =>
    obtain ⟨us, b, hus, hb⟩ := completable_control k
    exact ⟨us, b, hus, .control h hb⟩
  | procedure =>
    obtain ⟨procedure, hp⟩ := ht.exists_carries h rfl
    obtain ⟨us, s, hus, ts, vs, i, items, rfl, hi, hi', rfl⟩ := completable_arguments procedure
    have hcall : DerivesStatement (t :: (ts ++ vs)) _ := .plain hp hi hi'
    exact ⟨_, _, hus, .call hcall⟩
  | left d =>
    cases d with
    | parenthesis =>
      obtain ⟨us, items, hus, ts, closing, rfl, hc, hi⟩ := hitems
      refine ⟨.sample .procedure "p" :: (ts ++ [closing]), _, List.forall_mem_cons.2 ⟨rfl, hus⟩,
        .call (.parenthesized h ⟨rfl, rfl⟩ hi hc)⟩
    | _ => simp [h, TokenKind.startsBlock] at hk
  | _ => simp [h, TokenKind.startsBlock] at hk

/-! ## From runs to derivations -/

mutual

/-- What is behind a keyword is accepted, or the first token is refused that the shape of
    this control does not go on with. -/
theorem control_meets {k : Keyword} {ts : List Token} {n : Nat} (h : Stream ts)
    (hn : 8 * ts.length + 5 ≤ n) :
    Meets .near noKind (Grammar.control k n) (DerivesControl k) ts := by
  obtain ⟨n, rfl⟩ : ∃ m, n = m + 1 := ⟨n - 1, by omega⟩
  have hexpr : ∀ us rest, ts = us ++ rest → Stream rest → Meets .near noKind (expr n) DerivesExpr
      rest := fun us rest hts hs => expr_meets hs (by
    simp only [hts, List.length_append] at hn
    omega)
  have hbody : ∀ us rest, ts = us ++ rest → Stream rest → Meets .near noKind (body n) DerivesBody
      rest := fun us rest hts hs => (body_meets hs (by
    simp only [hts, List.length_append] at hn
    omega)).forget
  cases k with
  | run =>
    rw [Grammar.control]
    refine .mono ?_ ((hbody [] ts rfl h).map Block.run)
    rintro _ _ ⟨body, hb, rfl⟩
    exact .run hb
  | ifTrue =>
    rw [Grammar.control]
    refine .mono ?_ (.map₂ Block.ifTrue h (hexpr [] ts rfl h) hbody completable_body)
    rintro _ _ ⟨us, vs, e, body, rfl, he, hb, rfl⟩
    exact .ifTrue he hb
  | ifElse =>
    rw [Grammar.control]
    refine .mono ?_ (.bind h (hexpr [] ts rfl h) (fun us e rest hts hs _ =>
      .map₂ (Block.ifElse e) hs (hbody us rest hts hs) (fun vs rest' hrest hs' =>
        hbody (us ++ vs) rest' (by rw [hts, hrest, List.append_assoc]) hs') completable_body)
      fun e => ?_)
    · rintro _ _ ⟨us, _, e, rfl, he, vs, ws, yes, no, rfl, hy, hno, rfl⟩
      exact .ifElse he hy hno
    · obtain ⟨us, body, hus, hb⟩ := completable_body
      have hboth : ∀ u ∈ us ++ us, u.matched = true := by
        intro u hu
        exact hus u ((List.mem_append.1 hu).elim id id)
      exact ⟨us ++ us, _, hboth, us, us, body, body, rfl, hb, hb, rfl⟩
  | repeatTimes =>
    rw [Grammar.control]
    refine .mono ?_ (.map₂ Block.repeatTimes h (hexpr [] ts rfl h) hbody completable_body)
    rintro _ _ ⟨us, vs, e, body, rfl, he, hb, rfl⟩
    exact .repeatTimes he hb
  | doWhile =>
    rw [Grammar.control]
    refine .mono ?_ (.map₂ Block.doWhile h (hbody [] ts rfl h) hexpr completable_expr)
    rintro _ _ ⟨us, vs, body, e, rfl, hb, he, rfl⟩
    exact .doWhile hb he
  | whileDo =>
    rw [Grammar.control]
    refine .mono ?_ (.map₂ Block.whileDo h (hexpr [] ts rfl h) hbody completable_body)
    rintro _ _ ⟨us, vs, e, body, rfl, he, hb, rfl⟩
    exact .whileDo he hb
  | doUntil =>
    rw [Grammar.control]
    refine .mono ?_ (.map₂ Block.doUntil h (hbody [] ts rfl h) hexpr completable_expr)
    rintro _ _ ⟨us, vs, body, e, rfl, hb, he, rfl⟩
    exact .doUntil hb he
  | untilDo =>
    rw [Grammar.control]
    refine .mono ?_ (.map₂ Block.untilDo h (hexpr [] ts rfl h) hbody completable_body)
    rintro _ _ ⟨us, vs, e, body, rfl, he, hb, rfl⟩
    exact .untilDo he hb
  | output =>
    rw [Grammar.control]
    refine .mono ?_ ((hexpr [] ts rfl h).map Block.output)
    rintro _ _ ⟨e, he, rfl⟩
    exact .output he
  | stop =>
    rw [Grammar.control]
    refine .mono ?_ (.pure Block.stop h.ne_nil)
    rintro _ _ ⟨rfl, rfl⟩
    exact .stop
  | bye =>
    rw [Grammar.control]
    refine .mono ?_ (.pure Block.bye h.ne_nil)
    rintro _ _ ⟨rfl, rfl⟩
    exact .bye
termination_by n

/-- A block is accepted, or the first token is refused that no block goes on with. A token
    that starts a block is not refused right away. Its last part may be a statement, so it
    ends in far sight. -/
theorem block_meets {ts : List Token} {n : Nat} (h : Stream ts) (hn : 8 * ts.length + 3 ≤ n) :
    Meets .far TokenKind.startsBlock (block n) DerivesBlock ts := by
  obtain ⟨n, rfl⟩ : ∃ m, n = m + 1 := ⟨n - 1, by omega⟩
  rw [block]
  obtain ⟨t, rest, rfl⟩ := List.exists_cons_of_ne_nil h.ne_nil
  have hcall : Meets .far TokenKind.startsStatement (statement n >>= fun s => pure (.call s))
      DerivesBlock (t :: rest) := by
    refine .mono ?_ ((statement_meets h (by omega)).map Block.call)
    rintro _ _ ⟨s, hs, rfl⟩
    exact .call hs
  have hadmits : ∀ s : Token, s.Classified →
      Expected.admits false (.production "block") s.kind = true → Completable DerivesBlock [s] :=
    fun s hs hadm => completable_block hs (by simpa [Expected.admits] using hadm)
  cases hk : t.kind with
  | keyword k =>
    obtain ⟨-, hrest⟩ := h.tail (by rw [hk]; rfl)
    simp only [List.length_cons] at hn
    have hcontrol : Meets .near noKind (Grammar.control k n) (DerivesControl k) rest :=
      control_meets hrest (by omega)
    have hblock : Meets .far TokenKind.startsBlock (advance >>= fun t =>
        record ⟨.trace, .grammar,
          toString t.line ++ ":" ++ toString t.col ++ " " ++ t.kind.name⟩ >>= fun _ =>
          Grammar.control k n) (After t.kind (DerivesControl k)) (t :: rest) :=
      .consume hrest.ne_nil (fun u us o vs _ hne hr => .bind (.advance hne) (.bind (.record _) hr))
        hcontrol.far
    refine .peek_bind (fun u hu => by simp only [hu, hk]) id (.mono ?_ hblock)
    rintro _ _ ⟨u, us, rfl, hu, hb⟩
    exact .control (hu.trans hk) hb
  | procedure =>
    exact .peek_bind (fun u hu => by simp only [hu, hk]) (fun _ => by rw [hk]; rfl) hcall
  | left d =>
    cases d with
    | parenthesis =>
      exact .peek_bind (fun u hu => by simp only [hu, hk]) (fun _ => by rw [hk]; rfl) hcall
    | _ =>
      exact .peek_bind (fun u hu => by simp only [hu, hk]) id
        (.unexpected "block" (.production "block") rfl (by rw [hk]; rfl) (by rw [hk]; rfl) hadmits)
  | _ =>
    exact .peek_bind (fun u hu => by simp only [hu, hk]) id
      (.unexpected "block" (.production "block") rfl (by rw [hk]; rfl) (by rw [hk]; rfl) hadmits)
termination_by n

/-- A body is accepted, or the first token is refused that no body goes on with. -/
theorem body_meets {ts : List Token} {n : Nat} (h : Stream ts) (hn : 8 * ts.length + 1 ≤ n) :
    Meets .near (· == .left .bracket) (body n) DerivesBody ts := by
  obtain ⟨n, rfl⟩ : ∃ m, n = m + 1 := ⟨n - 1, by omega⟩
  rw [body]
  refine .mono ?_ (.expect_bind "body" h rfl completable_blocksUntilBracket
    fun t rest hts hrest => ?_)
  · rintro _ blocks ⟨opening, _, rfl, ho, ts, closing, rfl, hc, h⟩
    exact .mk ho h hc
  · simp only [hts, List.length_cons] at hn
    exact (blocksUntilBracket_meets hrest (by omega)).forget
termination_by n

/-- Blocks with the bracket that closes them are accepted, or the first token is refused
    that neither closes them nor goes on with a block. The bracket is part of the phrase, so
    near sight is enough although a block alone needs far sight. -/
theorem blocksUntilBracket_meets {ts : List Token} {n : Nat} (h : Stream ts)
    (hn : 8 * ts.length + 4 ≤ n) :
    Meets .near TokenKind.startsBlock (blocksUntilBracket n)
      (Before DerivesBlocks (.right .bracket)) ts := by
  obtain ⟨n, rfl⟩ : ∃ m, n = m + 1 := ⟨n - 1, by omega⟩
  rw [blocksUntilBracket]
  obtain ⟨t, rest, rfl⟩ := List.exists_cons_of_ne_nil h.ne_nil
  by_cases hclose : t.kind = .right .bracket
  · obtain ⟨-, hrest⟩ := h.tail (by rw [hclose]; rfl)
    have hnone : Meets .near noKind (pure []) (Nothing ([] : List Block)) rest :=
      .pure [] hrest.ne_nil
    refine .check_true hclose id (.mono ?_ (.advance_bind hrest.ne_nil hnone))
    rintro _ _ ⟨closing, _, rfl, hc, rfl, rfl⟩
    exact ⟨[], closing, rfl, hc.trans hclose, .nil⟩
  by_cases hmore : t.kind = .noMore
  · refine .check_false hclose id (.check_true hmore id (.unexpected "body"
      (.token (.right .bracket)) rfl (by rw [hmore]; rfl) (by simp [Expected.admits, hmore]) ?_))
    intro s _ hadm
    exact .before_nil .nil (by simpa [Expected.admits] using hadm)
  · refine .check_false hclose id (.check_false hmore id (.mono ?_ (.bind_of h
      (block_meets h (by omega)) (fun us b vs hts hvs hb =>
        (blocksUntilBracket_meets hvs ?_).map (b :: ·)) ?_ (fun b hb => absurd rfl hb.ne_nil)
      (.inr ⟨rfl, .inr ?_⟩))))
    · rintro _ _ ⟨us, _, b, rfl, hb, blocks, ⟨vs, closing, rfl, hc, h⟩, rfl⟩
      exact ⟨us ++ vs, closing, by simp, hc, .cons hb h⟩
    · have hpos : 0 < us.length := List.length_pos_iff.2 hb.ne_nil
      simp only [hts, List.length_append] at hn
      omega
    · intro b
      obtain ⟨us, blocks, hus, h⟩ := completable_blocksUntilBracket
      exact ⟨us, b :: blocks, hus, blocks, h, rfl⟩
    · -- The last token is the closing bracket, behind which the block does not look.
      rintro b _ _ ⟨blocks, ⟨vs, closing, rfl, hc, -⟩, -⟩
      exact ⟨vs, closing, rfl, by simp [hc]⟩
termination_by n

end

/-- Blocks are accepted up to the end of the source, or the first token is refused that no
    block goes on with. -/
theorem blocksUntilEnd_meets {ts : List Token} {n : Nat} (h : Stream ts)
    (hn : 8 * ts.length + 4 ≤ n) :
    Meets .far TokenKind.startsBlock (blocksUntilEnd n) DerivesBlocks ts := by
  obtain ⟨n, rfl⟩ : ∃ m, n = m + 1 := ⟨n - 1, by omega⟩
  rw [blocksUntilEnd]
  obtain ⟨t, rest, rfl⟩ := List.exists_cons_of_ne_nil h.ne_nil
  by_cases hmore : t.kind = .noMore
  · refine .check_true hmore id (.mono ?_ (.pure [] h.ne_nil))
    rintro _ _ ⟨rfl, rfl⟩
    exact .nil
  · refine .check_false hmore id (.mono ?_ (.bind_of h (block_meets h (by omega))
      (fun us b vs hts hvs hb => (blocksUntilEnd_meets hvs ?_).map (b :: ·))
      (fun b => .of_derives ⟨[], .nil, rfl⟩) (fun b hb => absurd rfl hb.ne_nil)
      (.inr ⟨rfl, .inl rfl⟩)))
    · rintro _ _ ⟨us, vs, b, rfl, hb, blocks, h, rfl⟩
      exact .cons hb h
    · have hpos : 0 < us.length := List.length_pos_iff.2 hb.ne_nil
      simp only [hts, List.length_append] at hn
      omega
termination_by n

end LogoSyntax

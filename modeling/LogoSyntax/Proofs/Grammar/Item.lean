-- SUMMARY: Items and statements: every derivation is parsed, and parsing accepts or refuses as the grammar says.
import LogoSyntax.Grammar.Item
import LogoSyntax.Proofs.Grammar.Expression

/-!
# Items and statements

The items of a statement without parentheses end where no further item begins.
This is the only place where the parser looks behind a parenthesis, so a
statement is accepted in far sight and everything else here in near sight.
-/

namespace LogoSyntax

open Parse Grammar

/-! ## Beginnings of items -/

/-- Looking ahead tells whether an item begins. Behind a parenthesis this takes a second
    token: a procedure there makes a call and no group. -/
theorem runs_startsItem {ts : List Token} (hts : ts ≠ []) :
    Runs startsItem ts (.ok (beginsItem ts)) ts := by
  obtain ⟨t, ts, rfl⟩ := List.exists_cons_of_ne_nil hts
  rw [startsItem]
  refine .peek_bind ?_
  cases hk : t.kind with
  | left d =>
    cases d with
    | parenthesis =>
      cases ts with
      | nil =>
        refine .bind (.peekNth 1 (t := t) rfl) ?_
        simp only [beginsItem, nextKind, hk]
        exact .pure true
      | cons u us =>
        refine .bind (.peekNth 1 (t := u) (by simp)) ?_
        simpa [beginsItem, hk, bne] using Runs.pure (u.kind != .procedure)
    | _ => simpa [beginsItem, hk, TokenKind.startsItem] using Runs.pure true
  | _ => simpa [beginsItem, hk, TokenKind.startsItem] using Runs.pure _

/-- The name of a procedure is consumed in front of anything. -/
theorem runs_procedureName {t : Token} {rest : List Token} {procedure : String}
    (ht : t.Carries .procedure procedure) (hr : rest ≠ []) :
    Runs procedureName (t :: rest) (.ok procedure) rest := by
  rw [procedureName]
  refine .bind (.expect _ ht.1 hr) ?_
  simpa [Token.payload, ht.2] using Runs.pure procedure

/-! ## From derivations to runs -/

mutual

/-- An item is parsed to its tree, whatever is behind it. -/
theorem DerivesItem.runs {ts rest : List Token} {i : Item} {n : Nat} (h : DerivesItem ts i)
    (hr : rest ≠ []) (hn : 8 * ts.length + 2 ≤ n) :
    Runs (item n) (ts ++ rest) (.ok i) rest := by
  obtain ⟨n, rfl⟩ : ∃ m, n = m + 1 := ⟨n - 1, by omega⟩
  rw [item]
  cases h with
  | group h =>
    have hrun := h.runs (n := n) hr (by omega)
    obtain ⟨t, us, rfl, ht⟩ := h.begins
    refine .peek_bind ?_
    simp only [ht]
    exact .bind hrun (.pure _)
  | list h =>
    have hrun := h.runs (n := n) "list" hr (by omega)
    obtain ⟨t, us, rfl, ht⟩ := h.begins
    refine .peek_bind ?_
    simp only [ht]
    exact .bind hrun (.pure _)
  | array h =>
    have hrun := h.runs (n := n) "array" hr (by omega)
    obtain ⟨t, us, rfl, ht⟩ := h.begins
    refine .peek_bind ?_
    simp only [ht]
    exact .bind hrun (.pure _)
  | @word t text h =>
    refine .peek_bind ?_
    simp only [h.1]
    exact runs_leaf Item.word h hr
  | @number t text h =>
    refine .peek_bind ?_
    simp only [h.1]
    exact runs_leaf Item.number h hr
  | @variableName t name h =>
    refine .peek_bind ?_
    simp only [h.1]
    exact runs_leaf Item.variableName h hr
termination_by n

/-- A list or an array is parsed to its items, whatever is behind its closing delimiter. -/
theorem DerivesSequence.runs {d : Delimiter} {ts rest : List Token} {items : List Item} {n : Nat}
    (h : DerivesSequence d ts items) (production : String) (hr : rest ≠ [])
    (hn : 8 * ts.length + 1 ≤ n) :
    Runs (sequence d production n) (ts ++ rest) (.ok items) rest := by
  obtain ⟨n, rfl⟩ : ∃ m, n = m + 1 := ⟨n - 1, by omega⟩
  rw [Grammar.sequence]
  cases h with
  | @mk d opening closing ts items ho h hc =>
    simp only [List.length_cons, List.length_append, List.length_nil] at hn
    simp only [List.cons_append, List.append_assoc, List.nil_append]
    exact .bind (.expect _ ho (by simp)) (h.runs_itemsUntil production hc hr (by omega))
termination_by n

/-- Items are parsed up to the delimiter that closes them. No item begins with a closing
    delimiter, so none of them ends the sequence early. -/
theorem DerivesItems.runs_itemsUntil {d : Delimiter} {ts rest : List Token} {closing : Token}
    {items : List Item} {n : Nat} (h : DerivesItems ts items) (production : String)
    (hc : closing.kind = .right d) (hr : rest ≠ []) (hn : 8 * ts.length + 3 ≤ n) :
    Runs (itemsUntil d production n) (ts ++ closing :: rest) (.ok items) rest := by
  obtain ⟨n, rfl⟩ : ∃ m, n = m + 1 := ⟨n - 1, by omega⟩
  rw [itemsUntil]
  cases h with
  | nil => exact .check_true hc (.bind (.advance hr) (.pure []))
  | @cons ts us i items hi h =>
    simp only [List.length_append] at hn
    have hpos : 0 < ts.length := List.length_pos_iff.2 hi.ne_nil
    rw [List.append_assoc]
    have hrun : Runs (item n) (ts ++ (us ++ closing :: rest)) (.ok i) (us ++ closing :: rest) :=
      hi.runs (by simp) (by omega)
    have hbegins := hi.begins (us ++ closing :: rest)
    obtain ⟨t, ts, rfl⟩ := List.exists_cons_of_ne_nil hi.ne_nil
    have ht := startsItem_of_beginsItem hbegins
    refine .check_false (fun hk => by simp [hk, TokenKind.startsItem] at ht) ?_
    refine .check_false (fun hk => by simp [hk, TokenKind.startsItem] at ht) ?_
    exact .bind hrun (.bind (h.runs_itemsUntil production hc hr (by omega)) (.pure _))
termination_by n

end

/-- The items of a statement are parsed up to where no further item begins. -/
theorem DerivesItems.runs_itemsWhile {ts rest : List Token} {items : List Item} {n : Nat}
    (h : DerivesItems ts items) (hr : rest ≠ []) (hnext : beginsItem rest = false)
    (hn : 8 * ts.length + 3 ≤ n) : Runs (itemsWhile n) (ts ++ rest) (.ok items) rest := by
  obtain ⟨n, rfl⟩ : ∃ m, n = m + 1 := ⟨n - 1, by omega⟩
  rw [itemsWhile]
  cases h with
  | nil =>
    refine .bind (runs_startsItem hr) ?_
    simpa [hnext] using Runs.pure []
  | @cons ts us i items hi h =>
    simp only [List.length_append] at hn
    have hpos : 0 < ts.length := List.length_pos_iff.2 hi.ne_nil
    rw [List.append_assoc]
    refine .bind (runs_startsItem (by simp [hr])) ?_
    simp only [hi.begins, if_true]
    refine .bind (hi.runs (by simp [hr]) (by omega)) ?_
    exact .bind (h.runs_itemsWhile hr hnext (by omega)) (.pure _)
termination_by n

/-- A statement is parsed to its tree if no item begins behind it. Behind the parenthesis
    that closes a statement an item would do no harm, but a statement without parentheses
    would go on with it. -/
theorem DerivesStatement.runs {ts rest : List Token} {s : Statement} {n : Nat}
    (h : DerivesStatement ts s) (hr : rest ≠ []) (hnext : beginsItem rest = false)
    (hn : 8 * ts.length + 2 ≤ n) : Runs (statement n) (ts ++ rest) (.ok s) rest := by
  rw [statement]
  cases h with
  | @plain t procedure ts us i items hp hi h =>
    simp only [List.length_cons, List.length_append] at hn
    simp only [List.cons_append, List.append_assoc]
    refine .check_false (by simp [hp.1]) (.bind (runs_procedureName hp (by simp [hr])) ?_)
    refine .bind (hi.runs (by simp [hr]) (by omega)) ?_
    exact .bind (h.runs_itemsWhile hr hnext (by omega)) (.pure _)
  | @parenthesized opening t closing procedure ts items ho hp h hc =>
    simp only [List.length_cons, List.length_append] at hn
    simp only [List.cons_append, List.append_assoc, List.nil_append]
    refine .check_true ho (.bind (.advance (by simp)) (.bind (runs_procedureName hp (by simp)) ?_))
    exact .bind (h.runs_itemsUntil "statement" hc hr (by omega)) (.pure _)

/-! ## Beginnings of phrases -/

theorem completable_itemsUntil (d : Delimiter) :
    Completable (Before DerivesItems (.right d)) [] :=
  .before .nil

/-- An opening delimiter can be followed up to a list or an array. -/
theorem completable_sequence {d : Delimiter} {t : Token} (ht : t.kind = .left d) :
    Completable (DerivesSequence d) [t] := by
  obtain ⟨us, items, hus, ts, closing, rfl, hc, h⟩ := completable_itemsUntil d
  exact ⟨_, items, hus, .mk ht h hc⟩

/-- Every token that starts an item can be followed up to one. -/
theorem completable_item {t : Token} (ht : t.Classified) (hk : t.kind.startsItem = true) :
    Completable DerivesItem [t] := by
  cases h : t.kind with
  | word =>
    obtain ⟨text, htext⟩ := ht.exists_carries h rfl
    exact .of_derives (.word htext)
  | number =>
    obtain ⟨text, htext⟩ := ht.exists_carries h rfl
    exact .of_derives (.number htext)
  | variableName =>
    obtain ⟨name, hname⟩ := ht.exists_carries h rfl
    exact .of_derives (.variableName hname)
  | left d =>
    cases d with
    | parenthesis =>
      obtain ⟨us, e, hus, he⟩ := completable_group h
      exact ⟨us, .group e, hus, .group he⟩
    | bracket =>
      obtain ⟨us, items, hus, hi⟩ := completable_sequence h
      exact ⟨us, .list items, hus, .list hi⟩
    | brace =>
      obtain ⟨us, items, hus, hi⟩ := completable_sequence h
      exact ⟨us, .array items, hus, .array hi⟩
  | _ => simp [h, TokenKind.startsItem] at hk

/-! ## From runs to derivations -/

mutual

/-- An item is accepted, or the first token is refused that no item goes on with. A token
    that starts an item is not refused right away. -/
theorem item_meets {ts : List Token} {n : Nat} (h : Stream ts) (hn : 8 * ts.length + 2 ≤ n) :
    Meets .near TokenKind.startsItem (item n) DerivesItem ts := by
  obtain ⟨n, rfl⟩ : ∃ m, n = m + 1 := ⟨n - 1, by omega⟩
  rw [item]
  obtain ⟨t, rest, rfl⟩ := List.exists_cons_of_ne_nil h.ne_nil
  cases hk : t.kind with
  | left d =>
    cases d with
    | parenthesis =>
      have hgroup := (group_meets (n := n) h (by omega)).map Item.group
      refine .peek_bind (fun u hu => by simp only [hu, hk]) (fun _ => by simp [hk]) (hgroup.mono ?_)
      rintro _ _ ⟨e, he, rfl⟩
      exact .group he
    | bracket =>
      have hlist := (sequence_meets (d := .bracket) (n := n) "list" h (by omega)).map Item.list
      refine .peek_bind (fun u hu => by simp only [hu, hk]) (fun _ => by simp [hk]) (hlist.mono ?_)
      rintro _ _ ⟨items, hi, rfl⟩
      exact .list hi
    | brace =>
      have harray := (sequence_meets (d := .brace) (n := n) "array" h (by omega)).map Item.array
      refine .peek_bind (fun u hu => by simp only [hu, hk]) (fun _ => by simp [hk]) (harray.mono ?_)
      rintro _ _ ⟨items, hi, rfl⟩
      exact .array hi
  | word =>
    refine .mono ?_ (.peek_leaf Item.word h (by rw [hk]; rfl) fun u hu => by simp only [hu, hk])
    rintro _ _ ⟨u, text, rfl, hu, rfl⟩
    exact .word (hk ▸ hu)
  | number =>
    refine .mono ?_ (.peek_leaf Item.number h (by rw [hk]; rfl) fun u hu => by simp only [hu, hk])
    rintro _ _ ⟨u, text, rfl, hu, rfl⟩
    exact .number (hk ▸ hu)
  | variableName =>
    refine .mono ?_ (.peek_leaf Item.variableName h (by rw [hk]; rfl) fun u hu => by
      simp only [hu, hk])
    rintro _ _ ⟨u, name, rfl, hu, rfl⟩
    exact .variableName (hk ▸ hu)
  | _ =>
    have hfirst : t.kind.startsItem = false := by rw [hk]; rfl
    refine .peek_bind (fun u hu => by simp only [hu, hk]) id (.unexpected "item"
      (.production "item") rfl hfirst (by simpa [Expected.admits] using hfirst) ?_)
    intro s hs hadm
    exact completable_item hs (by simpa [Expected.admits] using hadm)
termination_by n

/-- A list or an array is accepted, or the first token is refused that none goes on with. -/
theorem sequence_meets {d : Delimiter} {ts : List Token} {n : Nat} (production : String)
    (h : Stream ts) (hn : 8 * ts.length + 1 ≤ n) :
    Meets .near (· == .left d) (sequence d production n) (DerivesSequence d) ts := by
  obtain ⟨n, rfl⟩ : ∃ m, n = m + 1 := ⟨n - 1, by omega⟩
  rw [Grammar.sequence]
  refine .mono ?_ (.expect_bind production h rfl (completable_itemsUntil d)
    fun t rest hts hrest => ?_)
  · rintro _ items ⟨opening, _, rfl, ho, ts, closing, rfl, hc, h⟩
    exact .mk ho h hc
  · simp only [hts, List.length_cons] at hn
    exact itemsUntil_meets production hrest (by omega)
termination_by n

/-- Items with the delimiter that closes them are accepted, or the first token is refused
    that neither closes them nor goes on with an item. -/
theorem itemsUntil_meets {d : Delimiter} {ts : List Token} {n : Nat} (production : String)
    (h : Stream ts) (hn : 8 * ts.length + 3 ≤ n) :
    Meets .near noKind (itemsUntil d production n) (Before DerivesItems (.right d)) ts := by
  obtain ⟨n, rfl⟩ : ∃ m, n = m + 1 := ⟨n - 1, by omega⟩
  rw [itemsUntil]
  obtain ⟨t, rest, rfl⟩ := List.exists_cons_of_ne_nil h.ne_nil
  by_cases hclose : t.kind = .right d
  · obtain ⟨-, hrest⟩ := h.tail (by rw [hclose]; rfl)
    have hnone : Meets .near noKind (pure []) (Nothing ([] : List Item)) rest :=
      .pure [] hrest.ne_nil
    refine .check_true hclose id (.mono ?_ (.advance_bind hrest.ne_nil hnone))
    rintro _ _ ⟨closing, _, rfl, hc, rfl, rfl⟩
    exact ⟨[], closing, rfl, hc.trans hclose, .nil⟩
  by_cases hmore : t.kind = .noMore
  · refine .check_false hclose id (.check_true hmore id (.unexpected production (.token (.right d))
      rfl rfl (by simp [Expected.admits, hmore]) ?_))
    intro s _ hadm
    exact .before_nil .nil (by simpa [Expected.admits] using hadm)
  · have hitem := item_meets (n := n) h (by omega)
    refine .check_false hclose id (.check_false hmore id (.mono ?_ (.bind h hitem.forget
      (fun us i vs hts hvs hi => (itemsUntil_meets production hvs ?_).map (i :: ·)) ?_)))
    · rintro _ _ ⟨us, _, i, rfl, hi, items, ⟨vs, closing, rfl, hc, h⟩, rfl⟩
      exact ⟨us ++ vs, closing, by simp, hc, .cons hi h⟩
    · have hpos : 0 < us.length := List.length_pos_iff.2 hi.ne_nil
      simp only [hts, List.length_append] at hn
      omega
    · intro i
      obtain ⟨us, items, hus, h⟩ := completable_itemsUntil d
      exact ⟨us, i :: items, hus, items, h, rfl⟩
termination_by n

end

/-- Items are accepted up to where no further item begins, or a token in one of them is
    refused. The end is seen in far sight alone: a parenthesis that is left alone is told
    from a group by the token behind it. -/
theorem itemsWhile_meets {ts : List Token} {n : Nat} (h : Stream ts) (hn : 8 * ts.length + 3 ≤ n) :
    Meets .far TokenKind.startsItem (itemsWhile n) DerivesItems ts := by
  obtain ⟨n, rfl⟩ : ∃ m, n = m + 1 := ⟨n - 1, by omega⟩
  rw [itemsWhile]
  -- Which way the action goes is up to whether an item begins, which streams that agree in
  -- far sight have in common.
  cases hbegins : beginsItem ts with
  | false =>
    have hnone : Meets .far TokenKind.startsItem (pure []) DerivesItems ts :=
      .mono (by rintro _ _ ⟨rfl, rfl⟩; exact .nil) (.pure [] h.ne_nil)
    refine hnone.of_beginsItem (fun us o vs hne hus hr => ?_) rfl h.ne_nil
    refine .bind (runs_startsItem hne) ?_
    simpa [hus, hbegins] using hr
  | true =>
    have hsome : Meets .far TokenKind.startsItem
        (item n >>= fun i => itemsWhile n >>= fun items => pure (i :: items)) DerivesItems ts := by
      refine .mono ?_ (.bind_first h (item_meets h (by omega))
        (fun us i vs hts hvs hi => ((itemsWhile_meets hvs ?_).map (i :: ·)).forget)
        (fun i => .of_derives ⟨[], .nil, rfl⟩) fun i hi => absurd rfl hi.ne_nil)
      · rintro _ _ ⟨us, vs, i, rfl, hi, items, h, rfl⟩
        exact .cons hi h
      · have hpos : 0 < us.length := List.length_pos_iff.2 hi.ne_nil
        simp only [hts, List.length_append] at hn
        omega
    refine hsome.of_beginsItem (fun us o vs hne hus hr => ?_) rfl h.ne_nil
    refine .bind (runs_startsItem hne) ?_
    simpa [hus, hbegins] using hr
termination_by n

/-- The name of a procedure is accepted, or any other token is refused in its place. -/
theorem procedureName_meets {ts : List Token} (h : Stream ts) :
    Meets .near (· == .procedure) procedureName (Leaf .procedure id) ts := by
  rw [procedureName]
  obtain ⟨t, rest, rfl⟩ := List.exists_cons_of_ne_nil h.ne_nil
  by_cases hk : t.kind = .procedure
  · obtain ⟨ht, hrest⟩ := h.tail (by rw [hk]; rfl)
    rw [← hk]
    exact .consume_leaf id ht (by rw [hk]; rfl) hrest.ne_nil
      fun u us hu hne => .expect "statement" hu hne
  · refine .expect_refuses "statement" rfl hk fun s hs hsk => ?_
    obtain ⟨procedure, hp⟩ := hs.exists_carries hsk rfl
    exact .of_derives ⟨s, procedure, rfl, hp, rfl⟩

/-- The name of a procedure can be followed up to a statement. -/
theorem completable_arguments (procedure : String) :
    Completable (fun ts s => ∃ us vs i items, ts = us ++ vs ∧ DerivesItem us i ∧
      DerivesItems vs items ∧ s = Statement.mk procedure (i :: items) false) [] :=
  ⟨[.sample .number "0"], _, by simp [Token.sample], [.sample .number "0"], [], .number "0", [],
    rfl, .number ⟨rfl, rfl⟩, .nil, rfl⟩

/-- A statement is accepted, or the first token is refused that no statement goes on with.
    Within parentheses near sight would do, and without them the last item is seen to be the
    last one in far sight. -/
theorem statement_meets {ts : List Token} {n : Nat} (h : Stream ts) (hn : 8 * ts.length + 2 ≤ n) :
    Meets .far TokenKind.startsStatement (statement n) DerivesStatement ts := by
  rw [statement]
  obtain ⟨t, rest, rfl⟩ := List.exists_cons_of_ne_nil h.ne_nil
  by_cases hopen : t.kind = .left .parenthesis
  · obtain ⟨-, hrest⟩ := h.tail (by rw [hopen]; rfl)
    simp only [List.length_cons] at hn
    have hcall : Meets .near (· == .procedure) (procedureName >>= fun procedure =>
        itemsUntil .parenthesis "statement" n >>= fun items =>
          pure (Statement.mk procedure items true))
        (Seq (Leaf .procedure id) fun procedure ts s => ∃ items,
          Before DerivesItems (.right .parenthesis) ts items ∧
            s = Statement.mk procedure items true) rest := by
      refine .bind_first hrest (procedureName_meets hrest)
        (fun us procedure vs hts hvs _ => (itemsUntil_meets "statement" hvs ?_).map _)
        (fun procedure => ?_) (fun _ ⟨_, _, hnil, _⟩ => by cases hnil)
      · simp only [hts, List.length_append] at hn
        omega
      · obtain ⟨us, items, hus, hi⟩ := completable_itemsUntil .parenthesis
        exact ⟨us, _, hus, items, hi, rfl⟩
    refine .check_true hopen id (.mono ?_ (Meets.advance_bind hrest.ne_nil hcall).far)
    rintro _ _ ⟨opening, _, rfl, ho, _, _, procedure, rfl, ⟨t, _, rfl, hp, rfl⟩, items,
      ⟨us, closing, rfl, hc, hi⟩, rfl⟩
    exact .parenthesized (ho.trans hopen) hp hi hc
  · have hfirst : t.kind.startsStatement = true → (t.kind == .procedure) = true := by
      cases hk : t.kind with
      | left d => cases d <;> simp_all [TokenKind.startsStatement]
      | _ => simp [TokenKind.startsStatement]
    refine .check_false hopen hfirst (.mono ?_ (.bind_first h
      (procedureName_meets h) (fun us procedure vs hts hvs hp => ?_) completable_arguments
      fun _ ⟨_, _, hnil, _⟩ => by cases hnil))
    · rintro _ _ ⟨_, _, procedure, rfl, ⟨t, _, rfl, hp, rfl⟩, us, vs, i, items, rfl, hi, h, rfl⟩
      have hcall : DerivesStatement (t :: (us ++ vs)) _ := .plain hp hi h
      exact hcall
    · obtain ⟨t, _, rfl, _⟩ := hp
      simp only [hts, List.length_append, List.length_cons, List.length_nil] at hn
      refine .map₂ _ hvs (item_meets hvs (by omega)).forget (fun ws rest hvs' hrest => ?_)
        (.of_derives .nil)
      simp only [hvs', List.length_append] at hn
      exact (itemsWhile_meets hrest (by omega)).forget

end LogoSyntax

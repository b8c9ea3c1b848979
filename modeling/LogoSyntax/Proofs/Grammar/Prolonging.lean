-- SUMMARY: Phrases can be prolonged by operations, so a minus sign fits behind one that subtracts.
import LogoSyntax.Proofs.Grammar.Signs

/-!
# Prolonged phrases

Wherever an operand ends in front of a sign, an expression goes on, and operations can
be put in between: the operations behind them are then those of the longer chain. Every
phrase stays a phrase that way (`DerivesBlocks.prolong`), because the ends of operands
and signs stand side by side nowhere else.

The operations may begin with two minus signs. Behind a minus sign that subtracts, a
program can therefore go on with another one (`Viable.minus_behind_subtraction`).
-/

namespace LogoSyntax

/-! ## Operations in between -/

/-- The second list is the first one with operations in a place where an operand ends in
    front of a sign. -/
inductive Prolongs : List Token → List Token → Prop where
  | here {t sign : Token} {op : Operator} {ws vs : List Token} {steps : List (Operator × Expr)}
      (ht : t.kind.endsOperand = true) (hws : DerivesOperations ws steps)
      (hs : sign.kind = .sign op) : Prolongs (t :: sign :: vs) (t :: (ws ++ sign :: vs))
  | there {t : Token} {ts us : List Token} (h : Prolongs ts us) : Prolongs (t :: ts) (t :: us)

namespace Prolongs

variable {ts us vs : List Token} {t : Token}

theorem behind (h : Prolongs ts us) (front : List Token) : Prolongs (front ++ ts) (front ++ us) := by
  induction front with
  | nil => exact h
  | cons t front ih => exact .there ih

theorem not_nil : ¬ Prolongs [] us :=
  nofun

theorem not_singleton : ¬ Prolongs [t] us := by
  rintro (_ | h)
  exact not_nil h

/-- Nothing is put behind a token that ends no operand. -/
theorem tail (h : Prolongs (t :: ts) us) (ht : t.kind.endsOperand = false) :
    ∃ vs, us = t :: vs ∧ Prolongs ts vs := by
  cases h with
  | here hends => simp [ht] at hends
  | there h => exact ⟨_, rfl, h⟩

/-- Two lists behind one another are prolonged in one of them or at the border. -/
theorem append_cases (h : Prolongs (ts ++ us) vs) :
    (∃ ts', Prolongs ts ts' ∧ vs = ts' ++ us) ∨ (∃ us', Prolongs us us' ∧ vs = ts ++ us') ∨
      ((∃ t, ts.getLast? = some t ∧ t.kind.endsOperand = true) ∧
        (∃ op, nextKind us = some (.sign op)) ∧
        ∃ ws steps, DerivesOperations ws steps ∧ vs = ts ++ (ws ++ us)) := by
  induction ts generalizing vs with
  | nil => exact .inr (.inl ⟨vs, h, rfl⟩)
  | cons t ts ih =>
    generalize hzs : (t :: ts) ++ us = zs at h
    cases h with
    | @here _ sign op ws rest steps ht hws hs =>
      obtain ⟨rfl, hrest⟩ := List.cons.inj hzs
      cases ts with
      | nil =>
        obtain rfl : us = sign :: rest := hrest
        exact .inr (.inr ⟨⟨t, rfl, ht⟩, ⟨op, by simp [hs]⟩, ws, steps, hws, rfl⟩)
      | cons u ts =>
        obtain ⟨rfl, rfl⟩ := List.cons.inj hrest
        exact .inl ⟨_, .here ht hws hs, by simp⟩
    | there h =>
      obtain ⟨rfl, rfl⟩ := List.cons.inj hzs
      rcases ih h with ⟨ts', h', rfl⟩ | ⟨us', h', rfl⟩ | ⟨⟨u, hu, hends⟩, hsign, ws, steps, hws, rfl⟩
      · exact .inl ⟨_, .there h', rfl⟩
      · exact .inr (.inl ⟨us', h', rfl⟩)
      · refine .inr (.inr ⟨⟨u, ?_, hends⟩, hsign, ws, steps, hws, rfl⟩)
        simp [List.getLast?_cons, hu]

/-- Phrases behind one another are prolonged to such phrases, if each of them is and
    nothing fits at the border. -/
theorem phrases {α β : Type} {D : List Token → α → Prop} {E : List Token → β → Prop} {a : α}
    {b : β} (h : Prolongs (ts ++ us) vs)
    (hborder : (∀ op, nextKind us ≠ some (.sign op)) ∨
      ∀ t, ts.getLast? = some t → t.kind.endsOperand = false)
    (hd : D ts a) (he : E us b) (hD : ∀ {ts'}, Prolongs ts ts' → ∃ a', D ts' a')
    (hE : ∀ {us'}, Prolongs us us' → ∃ b', E us' b') :
    ∃ ts' us' a' b', vs = ts' ++ us' ∧ D ts' a' ∧ E us' b' := by
  rcases h.append_cases with ⟨ts', hts, rfl⟩ | ⟨us', hus, rfl⟩ |
    ⟨⟨t, ht, hends⟩, ⟨op, hop⟩, -⟩
  · obtain ⟨a', hd'⟩ := hD hts
    exact ⟨ts', us, a', b, rfl, hd', he⟩
  · obtain ⟨b', he'⟩ := hE hus
    exact ⟨ts, us', a, b', rfl, hd, he'⟩
  · rcases hborder with hsign | hlast
    · exact absurd hop (hsign op)
    · simp [hlast t ht] at hends

theorem enclosed {opening closing : Token} (h : Prolongs (opening :: (ts ++ [closing])) us)
    (ho : opening.kind.endsOperand = false) (hc : ∀ op, closing.kind ≠ .sign op) :
    ∃ ts', Prolongs ts ts' ∧ us = opening :: (ts' ++ [closing]) := by
  obtain ⟨vs, rfl, hvs⟩ := h.tail ho
  rcases hvs.append_cases with ⟨ts', hts, rfl⟩ | ⟨_, hclosing, -⟩ | ⟨-, ⟨op, hop⟩, -⟩
  · exact ⟨ts', hts, rfl⟩
  · exact absurd hclosing not_singleton
  · exact absurd (Option.some.inj hop) (hc op)

end Prolongs

/-! ## Borders of phrases -/

/-- Operations behind operations make one chain. -/
theorem DerivesOperations.append {ts us : List Token} {steps steps' : List (Operator × Expr)}
    (h : DerivesOperations ts steps) (h' : DerivesOperations us steps') :
    DerivesOperations (ts ++ us) (steps ++ steps') := by
  induction steps generalizing ts with
  | nil =>
    cases h
    exact h'
  | cons step steps ih =>
    cases h with
    | cons hs he hr =>
      rw [List.cons_append, List.append_assoc]
      exact .cons hs he (ih hr)

theorem DerivesItems.not_sign {ts : List Token} {items : List Item} (h : DerivesItems ts items)
    (op : Operator) : nextKind ts ≠ some (.sign op) := by
  cases h with
  | nil => simp [nextKind]
  | @cons ts us i items hi h =>
    intro hsign
    obtain ⟨t, ts, rfl⟩ := List.exists_cons_of_ne_nil hi.ne_nil
    have hk : t.kind = .sign op := by simpa using hsign
    simpa [beginsItem, hk, TokenKind.startsItem] using hi.begins us

theorem DerivesBlocks.not_sign {ts : List Token} {blocks : List Block}
    (h : DerivesBlocks ts blocks) (op : Operator) : nextKind ts ≠ some (.sign op) := by
  cases h with
  | nil => simp [nextKind]
  | cons hb h => exact (hb.closesBlock _).not_sign op

theorem DerivesBody.not_sign_self {ts : List Token} {blocks : List Block} (h : DerivesBody ts blocks)
    (op : Operator) : nextKind ts ≠ some (.sign op) := by
  simpa using h.not_sign [] op

theorem DerivesBody.not_endsOperand {ts : List Token} {blocks : List Block}
    (h : DerivesBody ts blocks) (t : Token) (ht : ts.getLast? = some t) :
    t.kind.endsOperand = false := by
  cases h with
  | mk ho h hc =>
    rw [← List.cons_append, List.getLast?_concat] at ht
    obtain rfl := Option.some.inj ht
    rw [hc]
    rfl

/-! ## Prolonged derivations -/

mutual

theorem DerivesPrimary.prolong {ts us : List Token} {e : Expr} (h : DerivesPrimary ts e) :
    Prolongs ts us → ∃ e', DerivesPrimary us e' := by
  intro hp
  match h with
  | .number _ => exact absurd hp Prolongs.not_singleton
  | .variableName _ => exact absurd hp Prolongs.not_singleton
  | .group h =>
    obtain ⟨e', h'⟩ := h.prolong hp
    exact ⟨e', .group h'⟩

theorem DerivesGroup.prolong {ts us : List Token} {e : Expr} (h : DerivesGroup ts e) :
    Prolongs ts us → ∃ e', DerivesGroup us e' := by
  intro hp
  match h with
  | .mk ho he hc =>
    obtain ⟨ts', hts, rfl⟩ := hp.enclosed (by rw [ho]; rfl) (by simp [hc])
    obtain ⟨e', he'⟩ := he.prolong hts
    exact ⟨e', .mk ho he' hc⟩

/-- An operand is prolonged within a group alone. -/
theorem DerivesOperand.prolong {ts us : List Token} {e : Expr} (h : DerivesOperand ts e) :
    Prolongs ts us → ∃ e', DerivesOperand us e' := by
  intro hp
  match h with
  | .plain h =>
    obtain ⟨e', h'⟩ := h.prolong hp
    exact ⟨e', .plain h'⟩
  | .negated hm h =>
    obtain ⟨vs, rfl, hvs⟩ := hp.tail (by rw [hm]; rfl)
    obtain ⟨e', h'⟩ := h.prolong hvs
    exact ⟨_, .negated hm h'⟩

theorem DerivesOperations.prolong {ts us : List Token} {steps : List (Operator × Expr)}
    (h : DerivesOperations ts steps) :
    Prolongs ts us → ∃ steps', DerivesOperations us steps' := by
  intro hp
  match h with
  | .nil => exact absurd hp Prolongs.not_nil
  | .cons hs he hr =>
    obtain ⟨vs, rfl, hvs⟩ := hp.tail (by rw [hs]; rfl)
    rcases hvs.append_cases with
      ⟨ts', hts, rfl⟩ | ⟨us', hus, rfl⟩ | ⟨-, -, ws, added, hws, rfl⟩
    · obtain ⟨e', he'⟩ := he.prolong hts
      exact ⟨_, .cons hs he' hr⟩
    · obtain ⟨steps', hr'⟩ := hr.prolong hus
      exact ⟨_, .cons hs he hr'⟩
    · exact ⟨_, .cons hs he (hws.append hr)⟩

/-- An expression is prolonged in one of its operands, or where its chain is put together. -/
theorem DerivesExpr.prolong {ts us : List Token} {e : Expr} (h : DerivesExpr ts e) :
    Prolongs ts us → ∃ e', DerivesExpr us e' := by
  intro hp
  match h with
  | .mk hf hr =>
    rcases hp.append_cases with
      ⟨ts', hts, rfl⟩ | ⟨us', hus, rfl⟩ | ⟨-, -, ws, added, hws, rfl⟩
    · obtain ⟨e', hf'⟩ := hf.prolong hts
      exact ⟨_, .mk hf' hr⟩
    · obtain ⟨steps', hr'⟩ := hr.prolong hus
      exact ⟨_, .mk hf hr'⟩
    · exact ⟨_, .mk hf (hws.append hr)⟩

end

mutual

/-- An item is prolonged within an expression in it. -/
theorem DerivesItem.prolong {ts us : List Token} {i : Item} (h : DerivesItem ts i) :
    Prolongs ts us → ∃ i', DerivesItem us i' := by
  intro hp
  match h with
  | .group h =>
    obtain ⟨e', h'⟩ := h.prolong hp
    exact ⟨_, .group h'⟩
  | .list h =>
    obtain ⟨items', h'⟩ := h.prolong hp
    exact ⟨_, .list h'⟩
  | .array h =>
    obtain ⟨items', h'⟩ := h.prolong hp
    exact ⟨_, .array h'⟩
  | .word _ | .number _ | .variableName _ => exact absurd hp Prolongs.not_singleton

theorem DerivesSequence.prolong {d : Delimiter} {ts us : List Token} {items : List Item}
    (h : DerivesSequence d ts items) :
    Prolongs ts us → ∃ items', DerivesSequence d us items' := by
  intro hp
  match h with
  | .mk ho h hc =>
    obtain ⟨ts', hts, rfl⟩ := hp.enclosed (by rw [ho]; rfl) (by simp [hc])
    obtain ⟨items', h'⟩ := h.prolong hts
    exact ⟨_, .mk ho h' hc⟩

theorem DerivesItems.prolong {ts us : List Token} {items : List Item}
    (h : DerivesItems ts items) : Prolongs ts us → ∃ items', DerivesItems us items' := by
  intro hp
  match h with
  | .nil => exact absurd hp Prolongs.not_nil
  | .cons hi h =>
    obtain ⟨_, _, _, _, rfl, hi', h'⟩ := hp.phrases (.inl h.not_sign) hi h hi.prolong h.prolong
    exact ⟨_, .cons hi' h'⟩

end

theorem DerivesStatement.prolong {ts us : List Token} {s : Statement}
    (h : DerivesStatement ts s) (hp : Prolongs ts us) : ∃ s', DerivesStatement us s' := by
  cases h with
  | plain hname hi h =>
    obtain ⟨vs, rfl, hvs⟩ := hp.tail (by rw [hname.1]; rfl)
    obtain ⟨_, _, _, _, rfl, hi', h'⟩ := hvs.phrases (.inl h.not_sign) hi h hi.prolong h.prolong
    exact ⟨_, .plain hname hi' h'⟩
  | parenthesized ho hname h hc =>
    obtain ⟨vs, rfl, hvs⟩ := hp.tail (by rw [ho]; rfl)
    obtain ⟨ts', hts, rfl⟩ := hvs.enclosed (by rw [hname.1]; rfl) (by simp [hc])
    obtain ⟨items', h'⟩ := h.prolong hts
    exact ⟨_, .parenthesized ho hname h' hc⟩

mutual

/-- What a keyword takes is prolonged in one part of it, because no part begins with a sign. -/
theorem DerivesControl.prolong {k : Keyword} {ts us : List Token} {b : Block}
    (h : DerivesControl k ts b) : Prolongs ts us → ∃ b', DerivesControl k us b' := by
  intro hp
  match h with
  | .run hb =>
    obtain ⟨body', hb'⟩ := hb.prolong hp
    exact ⟨_, .run hb'⟩
  | .ifTrue he hb | .repeatTimes he hb | .whileDo he hb | .untilDo he hb =>
    obtain ⟨_, _, _, _, rfl, he', hb'⟩ :=
      hp.phrases (.inl hb.not_sign_self) he hb he.prolong hb.prolong
    exact ⟨_, by constructor <;> assumption⟩
  | .ifElse he hy hn =>
    rcases hp.append_cases with ⟨ts', hts, rfl⟩ | ⟨zs, hzs, rfl⟩ | ⟨-, ⟨op, hop⟩, -⟩
    · obtain ⟨e', he'⟩ := he.prolong hts
      exact ⟨_, .ifElse he' hy hn⟩
    · obtain ⟨_, _, _, _, rfl, hy', hn'⟩ :=
        hzs.phrases (.inl hn.not_sign_self) hy hn hy.prolong hn.prolong
      exact ⟨_, .ifElse he hy' hn'⟩
    · exact absurd hop (hy.not_sign _ op)
  | .doWhile hb he | .doUntil hb he =>
    obtain ⟨_, _, _, _, rfl, hb', he'⟩ :=
      hp.phrases (.inr hb.not_endsOperand) hb he hb.prolong he.prolong
    exact ⟨_, by constructor <;> assumption⟩
  | .output he =>
    obtain ⟨e', he'⟩ := he.prolong hp
    exact ⟨_, .output he'⟩
  | .stop | .bye => exact absurd hp Prolongs.not_nil

theorem DerivesBlock.prolong {ts us : List Token} {b : Block} (h : DerivesBlock ts b) :
    Prolongs ts us → ∃ b', DerivesBlock us b' := by
  intro hp
  match h with
  | .control hk h =>
    obtain ⟨vs, rfl, hvs⟩ := hp.tail (by rw [hk]; rfl)
    obtain ⟨b', h'⟩ := h.prolong hvs
    exact ⟨b', .control hk h'⟩
  | .call h =>
    obtain ⟨s', h'⟩ := h.prolong hp
    exact ⟨_, .call h'⟩

theorem DerivesBody.prolong {ts us : List Token} {blocks : List Block}
    (h : DerivesBody ts blocks) : Prolongs ts us → ∃ blocks', DerivesBody us blocks' := by
  intro hp
  match h with
  | .mk ho h hc =>
    obtain ⟨ts', hts, rfl⟩ := hp.enclosed (by rw [ho]; rfl) (by simp [hc])
    obtain ⟨blocks', h'⟩ := h.prolong hts
    exact ⟨_, .mk ho h' hc⟩

/-- Blocks with operations in between are blocks. -/
theorem DerivesBlocks.prolong {ts us : List Token} {blocks : List Block}
    (h : DerivesBlocks ts blocks) : Prolongs ts us → ∃ blocks', DerivesBlocks us blocks' := by
  intro hp
  match h with
  | .nil => exact absurd hp Prolongs.not_nil
  | .cons hb h =>
    obtain ⟨_, _, _, _, rfl, hb', h'⟩ := hp.phrases (.inl h.not_sign) hb h hb.prolong h.prolong
    exact ⟨_, .cons hb' h'⟩

end

/-- Behind a minus sign that subtracts, a program goes on with another one. -/
theorem Viable.minus_behind_subtraction {front : List Token} {last minus minus' : Token}
    (h : Viable (front ++ [last, minus])) (hlast : last.kind.endsOperand = true)
    (hminus : minus.kind = .sign .sub) (hm : minus.matched = true)
    (hminus' : minus'.kind = .sign .sub) : Viable (front ++ [last, minus] ++ [minus']) := by
  obtain ⟨more, p, hmore, hp⟩ := h
  let one : Token := .sample .number "1"
  -- The operations in between begin with both minus signs and end with a number.
  have hone : DerivesOperand [minus', one] (.negate (.number "1")) :=
    .negated hminus' (.number ⟨rfl, rfl⟩)
  have hws : DerivesOperations [minus, minus', one] [(.sub, .negate (.number "1"))] :=
    .cons hminus hone .nil
  have hprolongs : Prolongs (front ++ last :: minus :: more)
      (front ++ last :: ([minus, minus', one] ++ minus :: more)) :=
    (Prolongs.here hlast hws hminus).behind front
  have hts : front ++ [last, minus] ++ more = front ++ last :: minus :: more := by simp
  obtain ⟨blocks, hblocks⟩ := (hts ▸ hp : DerivesBlocks _ _).prolong hprolongs
  refine ⟨one :: minus :: more, ⟨blocks⟩, ?_, ?_⟩
  · exact List.forall_mem_cons.2 ⟨rfl, List.forall_mem_cons.2 ⟨hm, hmore⟩⟩
  · simpa [DerivesProgram] using hblocks

end LogoSyntax

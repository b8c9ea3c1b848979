-- SUMMARY: Leaves of parsed programs: each comes from a word and can be written as that word again.
import LogoSyntax.Proofs.Grammar.Program
import LogoSyntax.Proofs.Token.Classification

/-!
# Leaves

The numbers and variables in the expressions of a parsed program are values of
its tokens, and a token's value tells the word that it was read from. Every
derivation passes this on from its tokens to the expressions of its tree.
-/

namespace LogoSyntax

/-- Every leaf is written as one word that stands for it. -/
def Expr.Lexical : Expr → Prop
  | .binary _ lhs rhs => lhs.Lexical ∧ rhs.Lexical
  | .negate e => e.Lexical
  | .number text => IsNumber text
  | .variableName name => IsVariable name

/-- The value of the token, as a number or a variable, can be written as a word again. -/
def Token.Lexical (t : Token) : Prop :=
  (∀ text, t.Carries .number text → IsNumber text) ∧
    ∀ name, t.Carries .variableName name → IsVariable name

/-- What a token of a source carries was read from a word that stands for it. -/
theorem Token.lexical_of_mem_tokenize {source : String} {t : Token} (ht : t ∈ tokenize source) :
    t.Lexical := by
  constructor
  · rintro text ⟨hk, hv⟩
    obtain ⟨w, hw, hc⟩ := exists_word_of_mem_tokenize ht (by rw [hk]; rfl)
    rw [hk, hv] at hc
    exact isNumber_of_classify hw hc
  · rintro name ⟨hk, hv⟩
    obtain ⟨w, hw, hc⟩ := exists_word_of_mem_tokenize ht (by rw [hk]; rfl)
    rw [hk, hv] at hc
    exact isVariable_of_classify hw hc

theorem Expr.Lexical.chain {first : Expr} {steps : List (Operator × Expr)} (hf : first.Lexical)
    (hs : ∀ step ∈ steps, step.2.Lexical) : (first.chain steps).Lexical := by
  induction steps generalizing first with
  | nil => exact hf
  | cons step steps ih =>
    obtain ⟨hstep, hs⟩ := List.forall_mem_cons.1 hs
    exact ih ⟨hf, hstep⟩ hs

mutual

theorem DerivesPrimary.lexical {ts : List Token} {e : Expr} (h : DerivesPrimary ts e) :
    (∀ t ∈ ts, t.Lexical) → e.Lexical := by
  intro hts
  match h with
  | .number h => exact (hts _ List.mem_cons_self).1 _ h
  | .variableName h => exact (hts _ List.mem_cons_self).2 _ h
  | .group h => exact h.lexical hts

theorem DerivesGroup.lexical {ts : List Token} {e : Expr} (h : DerivesGroup ts e) :
    (∀ t ∈ ts, t.Lexical) → e.Lexical := by
  intro hts
  match h with
  | .mk ho he hc => exact he.lexical fun t ht => hts t (by simp [ht])

theorem DerivesOperand.lexical {ts : List Token} {e : Expr} (h : DerivesOperand ts e) :
    (∀ t ∈ ts, t.Lexical) → e.Lexical := by
  intro hts
  match h with
  | .plain h => exact h.lexical hts
  | .negated hm h => exact h.lexical fun t ht => hts t (List.mem_cons_of_mem _ ht)

theorem DerivesOperations.lexical {ts : List Token} {steps : List (Operator × Expr)}
    (h : DerivesOperations ts steps) :
    (∀ t ∈ ts, t.Lexical) → ∀ step ∈ steps, step.2.Lexical := by
  intro hts
  match h with
  | .nil => simp
  | .cons hs he hr =>
    have hrhs := he.lexical fun t ht => hts t (by simp [ht])
    exact List.forall_mem_cons.2 ⟨hrhs, hr.lexical fun t ht => hts t (by simp [ht])⟩

/-- The leaves of an expression are words if those of its tokens are. -/
theorem DerivesExpr.lexical {ts : List Token} {e : Expr} (h : DerivesExpr ts e) :
    (∀ t ∈ ts, t.Lexical) → e.Lexical := by
  intro hts
  match h with
  | .mk hf hr =>
    have hfirst := hf.lexical fun t ht => hts t (List.mem_append_left _ ht)
    exact hfirst.chain (hr.lexical fun t ht => hts t (List.mem_append_right _ ht))

end

mutual

theorem DerivesItem.lexical {ts : List Token} {i : Item} (h : DerivesItem ts i) :
    (∀ t ∈ ts, t.Lexical) → ∀ e ∈ i.exprs, e.Lexical := by
  intro hts
  match h with
  | .group h => simpa [Item.exprs] using h.lexical hts
  | .list h => exact h.lexical hts
  | .array h => exact h.lexical hts
  | .word _ | .number _ | .variableName _ => simp [Item.exprs]

theorem DerivesSequence.lexical {d : Delimiter} {ts : List Token} {items : List Item}
    (h : DerivesSequence d ts items) :
    (∀ t ∈ ts, t.Lexical) → ∀ e ∈ Item.exprsAll items, e.Lexical := by
  intro hts
  match h with
  | .mk ho h hc => exact h.lexical fun t ht => hts t (by simp [ht])

theorem DerivesItems.lexical {ts : List Token} {items : List Item} (h : DerivesItems ts items) :
    (∀ t ∈ ts, t.Lexical) → ∀ e ∈ Item.exprsAll items, e.Lexical := by
  intro hts
  match h with
  | .nil => simp [Item.exprsAll]
  | .cons hi h =>
    have hfirst := hi.lexical fun t ht => hts t (List.mem_append_left _ ht)
    have hrest := h.lexical fun t ht => hts t (List.mem_append_right _ ht)
    exact fun e he => (List.mem_append.1 he).elim (hfirst e) (hrest e)

end

/-- The expressions of a statement are among those of its items. -/
theorem DerivesStatement.lexical {ts : List Token} {s : Statement} (h : DerivesStatement ts s)
    (hts : ∀ t ∈ ts, t.Lexical) : ∀ e ∈ Item.exprsAll s.items, e.Lexical := by
  cases h with
  | plain hp hi h =>
    exact (DerivesItems.cons hi h).lexical fun t ht => hts t (List.mem_cons_of_mem _ ht)
  | parenthesized ho hp h hc => exact h.lexical fun t ht => hts t (by simp [ht])

mutual

theorem DerivesControl.lexical {k : Keyword} {ts : List Token} {b : Block}
    (h : DerivesControl k ts b) : (∀ t ∈ ts, t.Lexical) → ∀ e ∈ b.exprs, e.Lexical := by
  intro hts
  match h with
  | .run hb => exact hb.lexical hts
  | .ifTrue he hb | .repeatTimes he hb | .whileDo he hb | .untilDo he hb =>
    have hexpr := he.lexical fun t ht => hts t (List.mem_append_left _ ht)
    have hbody := hb.lexical fun t ht => hts t (List.mem_append_right _ ht)
    exact List.forall_mem_cons.2 ⟨hexpr, hbody⟩
  | .ifElse he hy hn =>
    have hexpr := he.lexical fun t ht => hts t (List.mem_append_left _ ht)
    have hyes := hy.lexical fun t ht => hts t (by simp [ht])
    have hno := hn.lexical fun t ht => hts t (by simp [ht])
    refine List.forall_mem_cons.2 ⟨hexpr, fun e he => ?_⟩
    exact (List.mem_append.1 he).elim (hyes e) (hno e)
  | .doWhile hb he | .doUntil hb he =>
    have hbody := hb.lexical fun t ht => hts t (List.mem_append_left _ ht)
    have hexpr := he.lexical fun t ht => hts t (List.mem_append_right _ ht)
    refine fun e he => (List.mem_append.1 he).elim (hbody e) fun he => ?_
    obtain rfl := List.mem_singleton.1 he
    exact hexpr
  | .output he => exact List.forall_mem_singleton.2 (he.lexical hts)
  | .stop | .bye => simp [Block.exprs]

theorem DerivesBlock.lexical {ts : List Token} {b : Block} (h : DerivesBlock ts b) :
    (∀ t ∈ ts, t.Lexical) → ∀ e ∈ b.exprs, e.Lexical := by
  intro hts
  match h with
  | .control hk h => exact h.lexical fun t ht => hts t (List.mem_cons_of_mem _ ht)
  | .call h => exact h.lexical hts

theorem DerivesBody.lexical {ts : List Token} {blocks : List Block} (h : DerivesBody ts blocks) :
    (∀ t ∈ ts, t.Lexical) → ∀ e ∈ Block.exprsAll blocks, e.Lexical := by
  intro hts
  match h with
  | .mk ho h hc => exact h.lexical fun t ht => hts t (by simp [ht])

/-- The leaves in blocks are words if those of their tokens are. -/
theorem DerivesBlocks.lexical {ts : List Token} {blocks : List Block}
    (h : DerivesBlocks ts blocks) :
    (∀ t ∈ ts, t.Lexical) → ∀ e ∈ Block.exprsAll blocks, e.Lexical := by
  intro hts
  match h with
  | .nil => simp [Block.exprsAll]
  | .cons hb h =>
    have hfirst := hb.lexical fun t ht => hts t (List.mem_append_left _ ht)
    have hrest := h.lexical fun t ht => hts t (List.mem_append_right _ ht)
    exact fun e he => (List.mem_append.1 he).elim (hfirst e) (hrest e)

end

/-- The leaves of a parsed program can be written as words again. -/
theorem lexical_of_parse {source : String} {p : Program} (h : parse source = .ok p) :
    ∀ e ∈ p.exprs, e.Lexical := by
  obtain ⟨us, last, hts, -, hp⟩ := derives_of_parse h
  refine DerivesBlocks.lexical hp fun t ht => ?_
  have hmem : t ∈ Token.significant (tokenize source) := by simp [hts, ht]
  exact Token.lexical_of_mem_tokenize (List.mem_filter.1 hmem).1

end LogoSyntax

-- SUMMARY: What the parser decides by: the kinds that begin a phrase, and how far it looks ahead.
import LogoSyntax.SyntaxError
import LogoSyntax.Proofs.Grammar.Derivation

/-!
# Lookahead

Nearly every decision of the parser hangs on the kind of the next token. The one
exception is a parenthesis behind the items of a statement, which begins a
further item unless a procedure name follows it (`beginsItem`). A phrase
therefore ends in the same place in front of any two token lists that agree on
the next kind, and for statements on `beginsItem` as well (`Sight.Agree`).
-/

namespace LogoSyntax

/-! ## Kinds that begin a phrase -/

namespace TokenKind

def startsPrimary : TokenKind → Bool
  | left .parenthesis | number | variableName => true
  | _ => false

def startsItem : TokenKind → Bool
  | left _ | word | number | variableName => true
  | _ => false

def startsStatement : TokenKind → Bool
  | procedure | left .parenthesis => true
  | _ => false

def startsBlock : TokenKind → Bool
  | keyword _ | procedure | left .parenthesis => true
  | _ => false

end TokenKind

/-- Whether a token of this kind fits what was expected. Behind a minus sign that
    negates, an operand can have no minus sign of its own. -/
def Expected.admits (negated : Bool) : Expected → TokenKind → Bool
  | token expected, kind => kind == expected
  | production name, kind =>
    if name = "operand" then kind.startsPrimary || (!negated && kind == .sign .sub)
    else if name = "item" then kind.startsItem
    else kind.startsBlock

/-! ## The next tokens -/

/-- The kind of the first token. -/
def nextKind (ts : List Token) : Option TokenKind :=
  ts.head?.map Token.kind

@[simp] theorem nextKind_cons (t : Token) (ts : List Token) : nextKind (t :: ts) = some t.kind :=
  rfl

/-- Whether the tokens begin with an item: a parenthesis in front of a procedure
    name begins a statement. -/
def beginsItem : List Token → Bool
  | [] => false
  | t :: ts =>
    match t.kind with
    | .left .parenthesis => nextKind ts != some .procedure
    | kind => kind.startsItem

theorem startsItem_of_beginsItem {t : Token} {ts : List Token} (h : beginsItem (t :: ts) = true) :
    t.kind.startsItem = true := by
  simp only [beginsItem] at h
  split at h
  · next hk => simp [hk, TokenKind.startsItem]
  · exact h

theorem beginsItem_congr {t u : Token} {ts us : List Token} (hk : t.kind = u.kind)
    (hnext : t.kind = .left .parenthesis → nextKind ts = nextKind us) :
    beginsItem (t :: ts) = beginsItem (u :: us) := by
  simp only [beginsItem, ← hk]
  split
  · next hp => rw [hnext hp]
  · rfl

/-- How far the parser looks ahead at the end of a phrase. -/
inductive Sight where
  /-- At the next kind. -/
  | near
  /-- Behind a parenthesis too. -/
  | far

/-- A phrase that looks this far ahead ends in front of both lists or of neither. -/
def Sight.Agree : Sight → List Token → List Token → Prop
  | near, ts, us => nextKind ts = nextKind us
  | far, ts, us => nextKind ts = nextKind us ∧ beginsItem ts = beginsItem us

@[simp] theorem Sight.agree_near {ts us : List Token} :
    Sight.near.Agree ts us ↔ nextKind ts = nextKind us := Iff.rfl

theorem Sight.Agree.next {s : Sight} {ts us : List Token} (h : s.Agree ts us) :
    nextKind ts = nextKind us := by
  cases s with
  | near => exact h
  | far => exact h.1

/-! ## Tokens with the same symbols -/

theorem nextKind_append {ts us : List Token} {rest rest' : List Token}
    (hs : ts.map Token.symbol = us.map Token.symbol) (hr : nextKind rest = nextKind rest') :
    nextKind (ts ++ rest) = nextKind (us ++ rest') := by
  cases ts with
  | nil =>
    obtain rfl : us = [] := by simpa using hs.symm
    exact hr
  | cons t ts =>
    cases us with
    | nil => simp at hs
    | cons u us =>
      simp only [List.map_cons, List.cons.injEq, Token.symbol_eq_iff] at hs
      simp [hs.1.1]

/-- Lists that share their front agree in the far sight, if they do behind it. -/
theorem Sight.Agree.append {ts us : List Token} {rest rest' : List Token}
    (hs : ts.map Token.symbol = us.map Token.symbol) (hr : Sight.far.Agree rest rest') :
    Sight.far.Agree (ts ++ rest) (us ++ rest') := by
  cases ts with
  | nil =>
    obtain rfl : us = [] := by simpa using hs.symm
    exact hr
  | cons t ts =>
    refine ⟨nextKind_append hs hr.1, ?_⟩
    cases us with
    | nil => simp at hs
    | cons u us =>
      simp only [List.map_cons, List.cons.injEq, Token.symbol_eq_iff] at hs
      exact beginsItem_congr hs.1.1 fun _ => nextKind_append hs.2 hr.1

/-- Lists that share their front and the symbol behind it agree in either sight,
    unless a parenthesis without anything in front of it is to be looked behind. -/
theorem Sight.Agree.of_symbol {s : Sight} {ts us : List Token} {t u : Token}
    {rest rest' : List Token} (hs : ts.map Token.symbol = us.map Token.symbol)
    (ht : t.symbol = u.symbol)
    (hfar : s = .near ∨ (ts = [] → t.kind ≠ .left .parenthesis)) :
    s.Agree (ts ++ t :: rest) (us ++ u :: rest') := by
  obtain ⟨hk, -⟩ := Token.symbol_eq_iff.1 ht
  have hnext : nextKind (t :: rest) = nextKind (u :: rest') := by simp [hk]
  cases s with
  | near => exact nextKind_append hs hnext
  | far =>
    replace hfar := hfar.resolve_left (by simp)
    refine ⟨nextKind_append hs hnext, ?_⟩
    cases ts with
    | nil =>
      obtain rfl : us = [] := by simpa using hs.symm
      exact beginsItem_congr hk fun hp => absurd hp (hfar rfl)
    | cons v vs =>
      cases us with
      | nil => simp at hs
      | cons w ws =>
        simp only [List.map_cons, List.cons.injEq, Token.symbol_eq_iff] at hs
        exact beginsItem_congr hs.1.1 fun _ => nextKind_append hs.2 hnext

/-! ## How phrases begin -/

theorem DerivesGroup.begins {ts : List Token} {e : Expr} (h : DerivesGroup ts e) :
    ∃ t us, ts = t :: us ∧ t.kind = .left .parenthesis := by
  cases h with
  | mk ho he hc => exact ⟨_, _, rfl, ho⟩

theorem DerivesPrimary.begins {ts : List Token} {e : Expr} (h : DerivesPrimary ts e) :
    ∃ t us, ts = t :: us ∧ t.kind.startsPrimary = true := by
  cases h with
  | number h => exact ⟨_, _, rfl, by rw [h.1]; rfl⟩
  | variableName h => exact ⟨_, _, rfl, by rw [h.1]; rfl⟩
  | group h =>
    obtain ⟨t, us, rfl, ht⟩ := h.begins
    exact ⟨t, us, rfl, by rw [ht]; rfl⟩

theorem DerivesExpr.begins {ts : List Token} {e : Expr} (h : DerivesExpr ts e) :
    ∃ t us, ts = t :: us ∧ (t.kind.startsPrimary = true ∨ t.kind = .sign .sub) := by
  cases h with
  | mk hf hs =>
    cases hf with
    | plain h =>
      obtain ⟨t, us, rfl, ht⟩ := h.begins
      exact ⟨t, _, rfl, .inl ht⟩
    | negated hm h => exact ⟨_, _, rfl, .inr hm⟩

theorem DerivesSequence.begins {d : Delimiter} {ts : List Token} {items : List Item}
    (h : DerivesSequence d ts items) : ∃ t us, ts = t :: us ∧ t.kind = .left d := by
  cases h with
  | mk ho h hc => exact ⟨_, _, rfl, ho⟩

/-- The parser sees every item begin, whatever is behind it. -/
theorem DerivesItem.begins {ts : List Token} {i : Item} (h : DerivesItem ts i)
    (rest : List Token) : beginsItem (ts ++ rest) = true := by
  cases h with
  | group h =>
    cases h with
    | mk ho he hc =>
      obtain ⟨t, us, rfl, ht | ht⟩ := he.begins
      · have hne : t.kind ≠ .procedure := fun hp => by simp [hp, TokenKind.startsPrimary] at ht
        simp [beginsItem, ho, hne]
      · simp [beginsItem, ho, ht]
  | list h | array h =>
    obtain ⟨t, us, rfl, ht⟩ := h.begins
    simp [beginsItem, ht, TokenKind.startsItem]
  | word h => simp [beginsItem, h.1, TokenKind.startsItem]
  | number h => simp [beginsItem, h.1, TokenKind.startsItem]
  | variableName h => simp [beginsItem, h.1, TokenKind.startsItem]

theorem DerivesItem.ne_nil {ts : List Token} {i : Item} (h : DerivesItem ts i) : ts ≠ [] := by
  rintro rfl
  simpa [beginsItem] using h.begins []

/-- A block begins with a keyword, with a procedure name, or with a procedure
    name behind a parenthesis. -/
theorem DerivesBlock.begins {ts : List Token} {b : Block} (h : DerivesBlock ts b) :
    ∃ t us, ts = t :: us ∧ ((∃ k, t.kind = .keyword k) ∨ t.kind = .procedure ∨
      (t.kind = .left .parenthesis ∧ nextKind us = some .procedure)) := by
  cases h with
  | control hk h => exact ⟨_, _, rfl, .inl ⟨_, hk⟩⟩
  | call h =>
    cases h with
    | plain hp hi h => exact ⟨_, _, rfl, .inr (.inl hp.1)⟩
    | parenthesized ho hp h hc => exact ⟨_, _, rfl, .inr (.inr ⟨ho, by simp [hp.1]⟩)⟩

theorem DerivesBlock.ne_nil {ts : List Token} {b : Block} (h : DerivesBlock ts b) : ts ≠ [] := by
  obtain ⟨t, us, rfl, _⟩ := h.begins
  simp

/-- Tokens that can stand behind a block: they continue neither an expression
    nor the items of a statement. -/
structure ClosesBlock (ts : List Token) : Prop where
  ne_nil : ts ≠ []
  not_sign : ∀ op, nextKind ts ≠ some (.sign op)
  not_beginsItem : beginsItem ts = false

/-- A block can stand behind any block. -/
theorem DerivesBlock.closesBlock {ts : List Token} {b : Block} (h : DerivesBlock ts b)
    (rest : List Token) : ClosesBlock (ts ++ rest) := by
  obtain ⟨t, us, rfl, ⟨k, hk⟩ | hk | ⟨hk, hp⟩⟩ := h.begins
  · exact ⟨by simp, by simp [hk], by simp [beginsItem, hk, TokenKind.startsItem]⟩
  · exact ⟨by simp, by simp [hk], by simp [beginsItem, hk, TokenKind.startsItem]⟩
  · obtain ⟨p, ps, rfl⟩ : ∃ p ps, us = p :: ps := by
      cases us with
      | nil => simp [nextKind] at hp
      | cons p ps => exact ⟨p, ps, rfl⟩
    refine ⟨by simp, by simp [hk], ?_⟩
    simp only [nextKind_cons, Option.some.injEq] at hp
    simp [beginsItem, hk, hp]

end LogoSyntax

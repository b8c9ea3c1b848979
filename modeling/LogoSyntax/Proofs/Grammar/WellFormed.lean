-- SUMMARY: Well-formed programs, and what a derivation takes from its tokens: the atoms of its tree and nothing else.
import LogoSyntax.Proofs.Grammar.Program
import LogoSyntax.Proofs.Token.Spelling

/-!
# Well-formed programs

A program is well formed if every atom has a text of its shape and no statement
without parentheses lacks items. Every parsed program is. Its atoms, from left to
right, are the values of the tokens that it was parsed from
(`DerivesProgram.atoms`), and what a token can carry is decided by the shapes
(`Token.fits_of_mem_tokenize`).
-/

namespace LogoSyntax

/-! ## Atoms and statements of a program -/

/-- The atoms of an expression, in source order. -/
def Expr.atoms : Expr → List Atom
  | .binary _ lhs rhs => lhs.atoms ++ rhs.atoms
  | .negate e => e.atoms
  | .number text => [.number text]
  | .variableName name => [.variableName name]

mutual

/-- The atoms of an item, in source order. -/
def Item.atoms : Item → List Atom
  | .group e => e.atoms
  | .list items => Item.atomsAll items
  | .array items => Item.atomsAll items
  | .word text => [.word text]
  | .number text => [.number text]
  | .variableName name => [.variableName name]

/-- The atoms of some items, in source order. -/
def Item.atomsAll : List Item → List Atom
  | [] => []
  | i :: items => i.atoms ++ Item.atomsAll items

end

/-- The atoms of a statement, in source order. -/
def Statement.atoms (s : Statement) : List Atom :=
  .procedure s.procedure :: Item.atomsAll s.items

mutual

/-- The atoms of a block, in source order. -/
def Block.atoms : Block → List Atom
  | .run body => Block.atomsAll body
  | .ifTrue e body => e.atoms ++ Block.atomsAll body
  | .ifElse e yes no => e.atoms ++ (Block.atomsAll yes ++ Block.atomsAll no)
  | .repeatTimes e body => e.atoms ++ Block.atomsAll body
  | .doWhile body e => Block.atomsAll body ++ e.atoms
  | .whileDo e body => e.atoms ++ Block.atomsAll body
  | .doUntil body e => Block.atomsAll body ++ e.atoms
  | .untilDo e body => e.atoms ++ Block.atomsAll body
  | .output e => e.atoms
  | .stop => []
  | .bye => []
  | .call s => s.atoms

/-- The atoms of some blocks, in source order. -/
def Block.atomsAll : List Block → List Atom
  | [] => []
  | b :: blocks => b.atoms ++ Block.atomsAll blocks

end

mutual

/-- The statements of a block, those in its bodies included. -/
def Block.statements : Block → List Statement
  | .run body => Block.statementsAll body
  | .ifTrue _ body => Block.statementsAll body
  | .ifElse _ yes no => Block.statementsAll yes ++ Block.statementsAll no
  | .repeatTimes _ body => Block.statementsAll body
  | .doWhile body _ => Block.statementsAll body
  | .whileDo _ body => Block.statementsAll body
  | .doUntil body _ => Block.statementsAll body
  | .untilDo _ body => Block.statementsAll body
  | .output _ => []
  | .stop => []
  | .bye => []
  | .call s => [s]

/-- The statements of some blocks. -/
def Block.statementsAll : List Block → List Statement
  | [] => []
  | b :: blocks => b.statements ++ Block.statementsAll blocks

end

/-- Only a call in parentheses can do without items. -/
def Statement.Complete (s : Statement) : Prop :=
  s.parenthesized = false → s.items ≠ []

instance (s : Statement) : Decidable s.Complete :=
  inferInstanceAs (Decidable (_ → _))

namespace Program

/-- The atoms of a program, in source order. -/
def atoms (p : Program) : List Atom :=
  Block.atomsAll p.blocks

/-- The statements of a program, in source order. -/
def statements (p : Program) : List Statement :=
  Block.statementsAll p.blocks

/-- Every atom has a text of its shape, and every statement without parentheses has
    items. -/
structure WellFormed (p : Program) : Prop where
  atoms : ∀ a ∈ p.atoms, a.Fits
  statements : ∀ s ∈ p.statements, s.Complete

end Program

/-! ## Atoms of tokens -/

/-- The atom that the token carries. -/
def Token.atom? (t : Token) : Option Atom :=
  match t.kind with
  | .procedure => t.value.map .procedure
  | .word => t.value.map .word
  | .number => t.value.map .number
  | .variableName => t.value.map .variableName
  | _ => none

namespace Token

theorem atom?_eq_none {t : Token} (h : t.kind.hasValue = false) : t.atom? = none := by
  unfold atom?
  split <;> simp_all [TokenKind.hasValue]

/-- A token that carries the atom's text under the atom's kind carries the atom. -/
theorem Carries.atom? {t : Token} {a : Atom} (h : t.Carries a.kind a.text) : t.atom? = some a := by
  obtain ⟨hk, hv⟩ := h
  cases a <;> simp_all [Token.atom?, Atom.kind, Atom.text]

theorem carries_of_atom? {t : Token} {a : Atom} (h : t.atom? = some a) :
    t.Carries a.kind a.text := by
  cases hk : t.kind with
  | procedure | word | number | variableName =>
    rw [Token.atom?, hk] at h
    obtain ⟨text, hv, rfl⟩ := Option.map_eq_some_iff.1 h
    exact ⟨hk, hv⟩
  | _ => simp [Token.atom?, hk] at h

/-- What a token of a source carries has the shape of its kind. -/
theorem fits_of_mem_tokenize {source : String} {t : Token} {a : Atom} (ht : t ∈ tokenize source)
    (hatom : t.atom? = some a) : a.Fits := by
  obtain ⟨hk, hv⟩ := carries_of_atom? hatom
  obtain ⟨w, -, hc⟩ := exists_word_of_mem_tokenize ht (by rw [hk]; cases a <;> rfl)
  exact Atom.fits_of_classify (by rw [hc, hk, hv])

end Token

/-! ## Atoms of derived trees -/

/-- The atoms that some tokens carry, in their order. -/
def Token.atoms (ts : List Token) : List Atom :=
  ts.filterMap Token.atom?

namespace Token

theorem atoms_append (ts us : List Token) : atoms (ts ++ us) = atoms ts ++ atoms us :=
  List.filterMap_append

theorem atoms_cons_of_carries {t : Token} (a : Atom) (h : t.Carries a.kind a.text)
    (ts : List Token) : atoms (t :: ts) = a :: atoms ts := by
  rw [atoms, List.filterMap_cons_some h.atom?, atoms]

theorem atoms_cons_of_kind {t : Token} {kind : TokenKind} (h : t.kind = kind)
    (hkind : kind.hasValue = false) (ts : List Token) : atoms (t :: ts) = atoms ts := by
  rw [atoms, List.filterMap_cons_none (atom?_eq_none (h ▸ hkind)), atoms]

/-- Delimiters around some tokens add no atoms. -/
theorem atoms_enclosed {d : Delimiter} {opening closing : Token} (ho : opening.kind = .left d)
    (hc : closing.kind = .right d) (ts : List Token) :
    atoms (opening :: (ts ++ [closing])) = atoms ts := by
  rw [atoms_cons_of_kind ho rfl, atoms_append, atoms_cons_of_kind hc rfl]
  exact List.append_nil _

end Token

/-- The atoms of a chain are those of its operands, from left to right. -/
theorem Expr.atoms_chain (first : Expr) (steps : List (Operator × Expr)) :
    (first.chain steps).atoms = first.atoms ++ steps.flatMap (fun step => step.2.atoms) := by
  induction steps generalizing first with
  | nil => simp [chain]
  | cons step steps ih =>
    have hstep := ih (.binary step.1 first step.2)
    rw [atoms, List.append_assoc] at hstep
    exact hstep

mutual

theorem DerivesPrimary.atoms {ts : List Token} {e : Expr} (h : DerivesPrimary ts e) :
    e.atoms = Token.atoms ts := by
  match h with
  | .number h => exact (Token.atoms_cons_of_carries (.number _) h []).symm
  | .variableName h => exact (Token.atoms_cons_of_carries (.variableName _) h []).symm
  | .group h => exact h.atoms

theorem DerivesGroup.atoms {ts : List Token} {e : Expr} (h : DerivesGroup ts e) :
    e.atoms = Token.atoms ts := by
  match h with
  | .mk ho he hc =>
    rw [Token.atoms_enclosed ho hc]
    exact he.atoms

theorem DerivesOperand.atoms {ts : List Token} {e : Expr} (h : DerivesOperand ts e) :
    e.atoms = Token.atoms ts := by
  match h with
  | .plain h => exact h.atoms
  | .negated hm h =>
    rw [Token.atoms_cons_of_kind hm rfl]
    exact h.atoms

theorem DerivesOperations.atoms {ts : List Token} {steps : List (Operator × Expr)}
    (h : DerivesOperations ts steps) :
    steps.flatMap (fun step => step.2.atoms) = Token.atoms ts := by
  match h with
  | .nil => rfl
  | .cons hs he hr =>
    rw [Token.atoms_cons_of_kind hs rfl, Token.atoms_append, List.flatMap_cons, he.atoms, hr.atoms]

/-- An expression has the atoms that its tokens carry, in their order. -/
theorem DerivesExpr.atoms {ts : List Token} {e : Expr} (h : DerivesExpr ts e) :
    e.atoms = Token.atoms ts := by
  match h with
  | .mk hf hr => rw [Expr.atoms_chain, Token.atoms_append, hf.atoms, hr.atoms]

end

mutual

/-- An item has the atoms that its tokens carry, in their order. -/
theorem DerivesItem.atoms {ts : List Token} {i : Item} (h : DerivesItem ts i) :
    i.atoms = Token.atoms ts := by
  match h with
  | .group h => exact h.atoms
  | .list h => exact h.atoms
  | .array h => exact h.atoms
  | .word h => exact (Token.atoms_cons_of_carries (.word _) h []).symm
  | .number h => exact (Token.atoms_cons_of_carries (.number _) h []).symm
  | .variableName h => exact (Token.atoms_cons_of_carries (.variableName _) h []).symm

theorem DerivesSequence.atoms {d : Delimiter} {ts : List Token} {items : List Item}
    (h : DerivesSequence d ts items) : Item.atomsAll items = Token.atoms ts := by
  match h with
  | .mk ho h hc =>
    rw [Token.atoms_enclosed ho hc]
    exact h.atoms

theorem DerivesItems.atoms {ts : List Token} {items : List Item} (h : DerivesItems ts items) :
    Item.atomsAll items = Token.atoms ts := by
  match h with
  | .nil => rfl
  | .cons hi h => rw [Item.atomsAll, Token.atoms_append, hi.atoms, h.atoms]

end

/-- The name of a statement is its first atom, behind which are those of its items. -/
theorem DerivesStatement.atoms {ts : List Token} {s : Statement} (h : DerivesStatement ts s) :
    s.atoms = Token.atoms ts := by
  cases h with
  | plain hp hi h =>
    rw [Token.atoms_cons_of_carries (.procedure _) hp, ← (DerivesItems.cons hi h).atoms]
    rfl
  | parenthesized ho hp h hc =>
    rw [← List.cons_append, Token.atoms_enclosed ho hc,
      Token.atoms_cons_of_carries (.procedure _) hp, ← h.atoms]
    rfl

mutual

theorem DerivesControl.atoms {k : Keyword} {ts : List Token} {b : Block}
    (h : DerivesControl k ts b) : b.atoms = Token.atoms ts := by
  match h with
  | .run hb => exact hb.atoms
  | .ifTrue he hb | .repeatTimes he hb | .whileDo he hb | .untilDo he hb =>
    rw [Block.atoms, Token.atoms_append, he.atoms, hb.atoms]
  | .ifElse he hy hn =>
    rw [Block.atoms, Token.atoms_append, Token.atoms_append, he.atoms, hy.atoms, hn.atoms]
  | .doWhile hb he | .doUntil hb he => rw [Block.atoms, Token.atoms_append, hb.atoms, he.atoms]
  | .output he => exact he.atoms
  | .stop | .bye => rfl

theorem DerivesBlock.atoms {ts : List Token} {b : Block} (h : DerivesBlock ts b) :
    b.atoms = Token.atoms ts := by
  match h with
  | .control hk h =>
    rw [Token.atoms_cons_of_kind hk rfl]
    exact h.atoms
  | .call h => exact h.atoms

theorem DerivesBody.atoms {ts : List Token} {blocks : List Block} (h : DerivesBody ts blocks) :
    Block.atomsAll blocks = Token.atoms ts := by
  match h with
  | .mk ho h hc =>
    rw [Token.atoms_enclosed ho hc]
    exact h.atoms

/-- Blocks have the atoms that their tokens carry, in their order. -/
theorem DerivesBlocks.atoms {ts : List Token} {blocks : List Block}
    (h : DerivesBlocks ts blocks) : Block.atomsAll blocks = Token.atoms ts := by
  match h with
  | .nil => rfl
  | .cons hb h => rw [Block.atomsAll, Token.atoms_append, hb.atoms, h.atoms]

end

/-! ## Statements of derived trees -/

/-- No statement without parentheses lacks items, because its first item is parsed in any
    case. -/
theorem DerivesStatement.complete {ts : List Token} {s : Statement} (h : DerivesStatement ts s) :
    s.Complete := by
  cases h with
  | plain hp hi h => exact fun _ => List.cons_ne_nil _ _
  | parenthesized ho hp h hc => exact fun hs => Bool.noConfusion hs

mutual

theorem DerivesControl.complete {k : Keyword} {ts : List Token} {b : Block}
    (h : DerivesControl k ts b) : ∀ s ∈ b.statements, s.Complete := by
  match h with
  | .run hb => exact hb.complete
  | .ifTrue _ hb | .repeatTimes _ hb | .whileDo _ hb | .untilDo _ hb => exact hb.complete
  | .ifElse _ hy hn => exact List.forall_mem_append.2 ⟨hy.complete, hn.complete⟩
  | .doWhile hb _ | .doUntil hb _ => exact hb.complete
  | .output _ | .stop | .bye => simp [Block.statements]

theorem DerivesBlock.complete {ts : List Token} {b : Block} (h : DerivesBlock ts b) :
    ∀ s ∈ b.statements, s.Complete := by
  match h with
  | .control _ h => exact h.complete
  | .call h => exact List.forall_mem_singleton.2 h.complete

theorem DerivesBody.complete {ts : List Token} {blocks : List Block} (h : DerivesBody ts blocks) :
    ∀ s ∈ Block.statementsAll blocks, s.Complete := by
  match h with
  | .mk _ h _ => exact h.complete

/-- No statement in blocks lacks items. -/
theorem DerivesBlocks.complete {ts : List Token} {blocks : List Block}
    (h : DerivesBlocks ts blocks) : ∀ s ∈ Block.statementsAll blocks, s.Complete := by
  match h with
  | .nil => simp [Block.statementsAll]
  | .cons hb h => exact List.forall_mem_append.2 ⟨hb.complete, h.complete⟩

end

/-! ## Parsed programs -/

/-- The ends of lines carry no atoms. -/
theorem Token.atoms_significant (ts : List Token) : atoms (significant ts) = atoms ts := by
  induction ts with
  | nil => rfl
  | cons t ts ih =>
    by_cases hk : t.kind = .endOfLine
    · rw [significant_cons_endOfLine hk, atoms_cons_of_kind hk rfl, ih]
    · calc atoms (significant (t :: ts))
          = atoms [t] ++ atoms (significant ts) := by
            rw [significant_cons_of_ne hk, ← atoms_append, List.singleton_append]
        _ = atoms (t :: ts) := by rw [ih, ← atoms_append, List.singleton_append]

/-- The atoms of a parsed program are those that the tokens of its source carry. -/
theorem atoms_of_parse {source : String} {p : Program} (h : parse source = .ok p) :
    p.atoms = Token.atoms (tokenize source) := by
  obtain ⟨us, last, hts, hlast, hp⟩ := derives_of_parse h
  rw [← Token.atoms_significant, hts, Token.atoms_append, Token.atoms_cons_of_kind hlast rfl]
  exact (DerivesBlocks.atoms hp).trans (List.append_nil _).symm

/-- A parsed program is well formed. -/
theorem wellFormed_of_parse {source : String} {p : Program} (h : parse source = .ok p) :
    p.WellFormed := by
  constructor
  · intro a ha
    rw [atoms_of_parse h] at ha
    obtain ⟨t, ht, hatom⟩ := List.mem_filterMap.1 ha
    exact Token.fits_of_mem_tokenize ht hatom
  · obtain ⟨us, last, -, -, hp⟩ := derives_of_parse h
    exact DerivesBlocks.complete hp

end LogoSyntax

-- SUMMARY: Writing programs: a program is parsed from some source exactly if it is well formed.
import LogoSyntax.Proofs.Grammar.Independence
import LogoSyntax.Proofs.Grammar.WellFormed
import LogoSyntax.Proofs.Token.Place

/-!
# Writing programs

A well-formed program can be written so that it is parsed back: its source has one
word for each token, on one line. Every operation of an expression gets parentheses
of its own, so that an expression is always written as an operand, in whatever place
it stands.

`Spells` ties words to what the tokens that are read from them derive. It has one
rule for each way to put words together, and the trees follow these rules
(`Expr.spells`, `Item.spells`, `Block.spells`).
-/

namespace LogoSyntax

open Text

/-! ## Words of a program -/

/-- The delimiters with some words between them. -/
def Delimiter.around (d : Delimiter) (ws : List (List Char)) : List (List Char) :=
  [d.opening] :: (ws ++ [[d.closing]])

/-- The words of an expression, with every operation in parentheses. -/
def Expr.written : Expr → List (List Char)
  | .binary op lhs rhs =>
    Delimiter.parenthesis.around (lhs.written ++ [op.symbol] :: rhs.written)
  | .negate e => Delimiter.parenthesis.around ([Operator.sub.symbol] :: e.written)
  | .number text => [(Atom.number text).spelling]
  | .variableName name => [(Atom.variableName name).spelling]

mutual

/-- The words of an item. -/
def Item.written : Item → List (List Char)
  | .group e => Delimiter.parenthesis.around e.written
  | .list items => Delimiter.bracket.around (Item.writtenAll items)
  | .array items => Delimiter.brace.around (Item.writtenAll items)
  | .word text => [(Atom.word text).spelling]
  | .number text => [(Atom.number text).spelling]
  | .variableName name => [(Atom.variableName name).spelling]

/-- The words of some items. -/
def Item.writtenAll : List Item → List (List Char)
  | [] => []
  | i :: items => i.written ++ Item.writtenAll items

end

/-- The words of a statement. -/
def Statement.written (s : Statement) : List (List Char) :=
  let call := (Atom.procedure s.procedure).spelling :: Item.writtenAll s.items
  if s.parenthesized then Delimiter.parenthesis.around call else call

mutual

/-- The words of a block. -/
def Block.written : Block → List (List Char)
  | .run body => Keyword.run.spelling.toList :: Delimiter.bracket.around (Block.writtenAll body)
  | .ifTrue e body => Keyword.ifTrue.spelling.toList ::
      (e.written ++ Delimiter.bracket.around (Block.writtenAll body))
  | .ifElse e yes no => Keyword.ifElse.spelling.toList ::
      (e.written ++ (Delimiter.bracket.around (Block.writtenAll yes)
        ++ Delimiter.bracket.around (Block.writtenAll no)))
  | .repeatTimes e body => Keyword.repeatTimes.spelling.toList ::
      (e.written ++ Delimiter.bracket.around (Block.writtenAll body))
  | .doWhile body e => Keyword.doWhile.spelling.toList ::
      (Delimiter.bracket.around (Block.writtenAll body) ++ e.written)
  | .whileDo e body => Keyword.whileDo.spelling.toList ::
      (e.written ++ Delimiter.bracket.around (Block.writtenAll body))
  | .doUntil body e => Keyword.doUntil.spelling.toList ::
      (Delimiter.bracket.around (Block.writtenAll body) ++ e.written)
  | .untilDo e body => Keyword.untilDo.spelling.toList ::
      (e.written ++ Delimiter.bracket.around (Block.writtenAll body))
  | .output e => Keyword.output.spelling.toList :: e.written
  | .stop => [Keyword.stop.spelling.toList]
  | .bye => [Keyword.bye.spelling.toList]
  | .call s => s.written

/-- The words of some blocks. -/
def Block.writtenAll : List Block → List (List Char)
  | [] => []
  | b :: blocks => b.written ++ Block.writtenAll blocks

end

/-- A source of the program: its words on one line. -/
def Program.source (p : Program) : String :=
  String.ofList (spread true (Block.writtenAll p.blocks))

/-! ## Words and the tokens that are read from them -/

theorem classify_opening (d : Delimiter) : classify [d.opening] = some (.left d, none) := by
  cases d <;> decide

theorem classify_closing (d : Delimiter) : classify [d.closing] = some (.right d, none) := by
  cases d <;> decide

theorem classify_symbol (op : Operator) : classify [op.symbol] = some (.sign op, none) := by
  cases op <;> decide

theorem classify_keyword (k : Keyword) :
    classify k.spelling.toList = some (.keyword k, none) := by
  cases k <;> decide

/-- The words are classified, and the tokens that are read from them satisfy `P`. -/
structure Spells (ws : List (List Char)) (P : List Token → Prop) : Prop where
  classified : ∀ w ∈ ws, (classify w).isSome = true
  tokens : ∀ ts : List Token, ts.map (fun t => some t.symbol) = ws.map classify → P ts

namespace Spells

variable {ws vs : List (List Char)} {P Q R : List Token → Prop}

theorem imp (hws : Spells ws P) (h : ∀ ts, P ts → Q ts) : Spells ws Q :=
  ⟨hws.classified, fun ts hts => h ts (hws.tokens ts hts)⟩

theorem nil (h : P []) : Spells [] P := by
  constructor
  · simp
  · intro ts hts
    obtain rfl := List.map_eq_nil_iff.1 hts
    exact h

/-- Texts of two phrases, one behind the other, are one of the phrase that they make. -/
theorem append (hws : Spells ws P) (hvs : Spells vs Q)
    (h : ∀ ts us, P ts → Q us → R (ts ++ us)) : Spells (ws ++ vs) R := by
  constructor
  · exact List.forall_mem_append.2 ⟨hws.classified, hvs.classified⟩
  · intro ts hts
    rw [List.map_append] at hts
    obtain ⟨as, bs, rfl, has, hbs⟩ := List.map_eq_append_iff.1 hts
    exact h as bs (hws.tokens as has) (hvs.tokens bs hbs)

/-- A word is the text of a token that carries what the word is classified as. -/
theorem word {w : List Char} {kind : TokenKind} {value : Option String}
    (hw : classify w = some (kind, value))
    (h : ∀ t : Token, t.kind = kind → t.value = value → P [t]) : Spells [w] P := by
  constructor
  · simp [hw]
  · intro ts hts
    obtain ⟨t, us, rfl, ht, hnil⟩ := List.map_eq_cons_iff.1 hts
    obtain rfl := List.map_eq_nil_iff.1 hnil
    rw [hw] at ht
    obtain ⟨hkind, hvalue⟩ := Prod.mk.inj (Option.some.inj ht)
    exact h t hkind hvalue

theorem cons {w : List Char} {kind : TokenKind} {value : Option String}
    (hw : classify w = some (kind, value)) (hws : Spells ws P)
    (h : ∀ (t : Token) (ts : List Token), t.kind = kind → t.value = value → P ts → Q (t :: ts)) :
    Spells (w :: ws) Q := by
  have hword : Spells [w] (fun us => ∃ t, us = [t] ∧ t.kind = kind ∧ t.value = value) :=
    word hw fun t hkind hvalue => ⟨t, rfl, hkind, hvalue⟩
  refine hword.append hws ?_
  rintro _ ts ⟨t, rfl, hkind, hvalue⟩ hts
  exact h t ts hkind hvalue hts

theorem atom {a : Atom} (ha : a.Fits) (h : ∀ t : Token, t.Carries a.kind a.text → P [t]) :
    Spells [a.spelling] P :=
  word ha.classify_spelling fun t hkind hvalue => h t ⟨hkind, hvalue⟩

theorem around {d : Delimiter} (hws : Spells ws P)
    (h : ∀ (opening closing : Token) (ts : List Token), opening.kind = .left d →
      closing.kind = .right d → P ts → Q (opening :: (ts ++ [closing]))) :
    Spells (d.around ws) Q := by
  have hclosing : Spells [[d.closing]] (fun us => ∃ t, us = [t] ∧ t.kind = .right d) :=
    word (classify_closing d) fun t hkind _ => ⟨t, rfl, hkind⟩
  have htail : Spells (ws ++ [[d.closing]])
      (fun us => ∃ ts closing, us = ts ++ [closing] ∧ closing.kind = .right d ∧ P ts) := by
    refine hws.append hclosing ?_
    rintro ts _ hts ⟨closing, rfl, hkind⟩
    exact ⟨ts, closing, rfl, hkind, hts⟩
  refine cons (classify_opening d) htail ?_
  rintro opening _ ho - ⟨ts, closing, rfl, hc, hts⟩
  exact h opening closing ts ho hc hts

end Spells

/-! ## Words of well-formed trees -/

/-- An operand is an expression. -/
theorem DerivesOperand.expr {ts : List Token} {e : Expr} (h : DerivesOperand ts e) :
    DerivesExpr ts e := by
  have he : DerivesExpr (ts ++ []) e := .mk h .nil
  rwa [List.append_nil] at he

/-- An expression in its written form is a primary, whatever stands around it. -/
theorem Expr.spells {e : Expr} (h : ∀ a ∈ e.atoms, a.Fits) :
    Spells e.written (fun ts => DerivesPrimary ts e) := by
  induction e with
  | binary op lhs rhs ihl ihr =>
    obtain ⟨hl, hr⟩ := List.forall_mem_append.1 h
    have hsteps : Spells ([op.symbol] :: rhs.written)
        (fun ts => DerivesOperations ts [(op, rhs)]) := by
      refine .cons (classify_symbol op) (ihr hr) fun sign ts hsign _ hrhs => ?_
      simpa using DerivesOperations.cons hsign (.plain hrhs) .nil
    have hexpr : Spells (lhs.written ++ [op.symbol] :: rhs.written)
        (fun ts => DerivesExpr ts (.binary op lhs rhs)) :=
      (ihl hl).append hsteps fun ts us hlhs hrest => .mk (.plain hlhs) hrest
    exact hexpr.around fun opening closing ts ho hc he => .group (.mk ho he hc)
  | negate e ih =>
    have hexpr : Spells ([Operator.sub.symbol] :: e.written)
        (fun ts => DerivesExpr ts (.negate e)) :=
      .cons (classify_symbol .sub) (ih h) fun minus ts hminus _ he =>
        (DerivesOperand.negated hminus he).expr
    exact hexpr.around fun opening closing ts ho hc he => .group (.mk ho he hc)
  | number text => exact .atom (List.forall_mem_singleton.1 h) fun t ht => .number ht
  | variableName name => exact .atom (List.forall_mem_singleton.1 h) fun t ht => .variableName ht

theorem Expr.spells_expr {e : Expr} (h : ∀ a ∈ e.atoms, a.Fits) :
    Spells e.written (fun ts => DerivesExpr ts e) :=
  (Expr.spells h).imp fun _ he => (DerivesOperand.plain he).expr

mutual

/-- The written form of an item is derived as the item. -/
theorem Item.spells (i : Item) (h : ∀ a ∈ i.atoms, a.Fits) :
    Spells i.written (fun ts => DerivesItem ts i) := by
  match i with
  | .group e =>
    exact (Expr.spells_expr h).around fun opening closing ts ho hc he => .group (.mk ho he hc)
  | .list items =>
    exact (Item.spellsAll items h).around fun opening closing ts ho hc hitems =>
      .list (.mk ho hitems hc)
  | .array items =>
    exact (Item.spellsAll items h).around fun opening closing ts ho hc hitems =>
      .array (.mk ho hitems hc)
  | .word text => exact .atom (List.forall_mem_singleton.1 h) fun t ht => .word ht
  | .number text => exact .atom (List.forall_mem_singleton.1 h) fun t ht => .number ht
  | .variableName name => exact .atom (List.forall_mem_singleton.1 h) fun t ht => .variableName ht

theorem Item.spellsAll (items : List Item) (h : ∀ a ∈ Item.atomsAll items, a.Fits) :
    Spells (Item.writtenAll items) (fun ts => DerivesItems ts items) := by
  match items with
  | [] => exact .nil .nil
  | i :: items =>
    obtain ⟨hi, hitems⟩ := List.forall_mem_append.1 h
    exact (i.spells hi).append (Item.spellsAll items hitems) fun ts us hd hds => .cons hd hds

end

/-- The written form of a statement is derived as the statement, if no items are missing. -/
theorem Statement.spells {s : Statement} (h : ∀ a ∈ s.atoms, a.Fits) (hc : s.Complete) :
    Spells s.written (fun ts => DerivesStatement ts s) := by
  obtain ⟨hprocedure, hatoms⟩ := List.forall_mem_cons.1 h
  obtain ⟨procedure, items, parenthesized⟩ := s
  cases parenthesized with
  | true =>
    have hcall : Spells ((Atom.procedure procedure).spelling :: Item.writtenAll items)
        (fun us => ∃ t ts, us = t :: ts ∧ t.Carries .procedure procedure ∧ DerivesItems ts items) :=
      .cons hprocedure.classify_spelling (Item.spellsAll items hatoms)
        fun t ts hkind hvalue hitems => ⟨t, ts, rfl, ⟨hkind, hvalue⟩, hitems⟩
    refine hcall.around ?_
    rintro opening closing _ ho hclosing ⟨t, ts, rfl, ht, hitems⟩
    exact .parenthesized ho ht hitems hclosing
  | false =>
    cases items with
    | nil => exact absurd rfl (hc rfl)
    | cons i items =>
      obtain ⟨hi, hitems⟩ := List.forall_mem_append.1 hatoms
      have hargs : Spells (Item.writtenAll (i :: items))
          (fun vs => ∃ ts us, vs = ts ++ us ∧ DerivesItem ts i ∧ DerivesItems us items) :=
        (i.spells hi).append (Item.spellsAll items hitems)
          fun ts us hd hds => ⟨ts, us, rfl, hd, hds⟩
      refine .cons hprocedure.classify_spelling hargs ?_
      rintro t _ hkind hvalue ⟨ts, us, rfl, hd, hds⟩
      exact .plain ⟨hkind, hvalue⟩ hd hds

namespace Spells

variable {ws : List (List Char)} {blocks : List Block} {k : Keyword} {b : Block}

theorem body (h : Spells ws (fun ts => DerivesBlocks ts blocks)) :
    Spells (Delimiter.bracket.around ws) (fun ts => DerivesBody ts blocks) :=
  h.around fun _ _ _ ho hc hblocks => .mk ho hblocks hc

theorem control (h : Spells ws (fun ts => DerivesControl k ts b)) :
    Spells (k.spelling.toList :: ws) (fun ts => DerivesBlock ts b) :=
  cons (classify_keyword k) h fun _ _ hk _ hcontrol => .control hk hcontrol

end Spells

mutual

/-- The written form of a block is derived as the block. -/
theorem Block.spells (b : Block) (h : ∀ a ∈ b.atoms, a.Fits)
    (hc : ∀ s ∈ b.statements, s.Complete) : Spells b.written (fun ts => DerivesBlock ts b) := by
  match b with
  | .run body =>
    exact .control ((Block.spellsAll body h hc).body.imp fun ts hb => .run hb)
  | .ifTrue e body =>
    obtain ⟨he, hbody⟩ := List.forall_mem_append.1 h
    exact .control ((Expr.spells_expr he).append (Block.spellsAll body hbody hc).body
      fun ts us hexpr hb => .ifTrue hexpr hb)
  | .ifElse e yes no =>
    obtain ⟨he, hbodies⟩ := List.forall_mem_append.1 h
    obtain ⟨hyes, hno⟩ := List.forall_mem_append.1 hbodies
    obtain ⟨hcyes, hcno⟩ := List.forall_mem_append.1 hc
    have hbranches : Spells (Delimiter.bracket.around (Block.writtenAll yes) ++
        Delimiter.bracket.around (Block.writtenAll no))
        (fun vs => ∃ ts us, vs = ts ++ us ∧ DerivesBody ts yes ∧ DerivesBody us no) :=
      (Block.spellsAll yes hyes hcyes).body.append (Block.spellsAll no hno hcno).body
        fun ts us hy hn => ⟨ts, us, rfl, hy, hn⟩
    refine .control ((Expr.spells_expr he).append hbranches ?_)
    rintro ts _ hexpr ⟨us, vs, rfl, hy, hn⟩
    exact .ifElse hexpr hy hn
  | .repeatTimes e body =>
    obtain ⟨he, hbody⟩ := List.forall_mem_append.1 h
    exact .control ((Expr.spells_expr he).append (Block.spellsAll body hbody hc).body
      fun ts us hexpr hb => .repeatTimes hexpr hb)
  | .doWhile body e =>
    obtain ⟨hbody, he⟩ := List.forall_mem_append.1 h
    exact .control ((Block.spellsAll body hbody hc).body.append (Expr.spells_expr he)
      fun ts us hb hexpr => .doWhile hb hexpr)
  | .whileDo e body =>
    obtain ⟨he, hbody⟩ := List.forall_mem_append.1 h
    exact .control ((Expr.spells_expr he).append (Block.spellsAll body hbody hc).body
      fun ts us hexpr hb => .whileDo hexpr hb)
  | .doUntil body e =>
    obtain ⟨hbody, he⟩ := List.forall_mem_append.1 h
    exact .control ((Block.spellsAll body hbody hc).body.append (Expr.spells_expr he)
      fun ts us hb hexpr => .doUntil hb hexpr)
  | .untilDo e body =>
    obtain ⟨he, hbody⟩ := List.forall_mem_append.1 h
    exact .control ((Expr.spells_expr he).append (Block.spellsAll body hbody hc).body
      fun ts us hexpr hb => .untilDo hexpr hb)
  | .output e => exact .control ((Expr.spells_expr h).imp fun ts hexpr => .output hexpr)
  | .stop => exact .control (.nil .stop)
  | .bye => exact .control (.nil .bye)
  | .call s =>
    exact (Statement.spells h (List.forall_mem_singleton.1 hc)).imp fun ts hs => .call hs

theorem Block.spellsAll (blocks : List Block) (h : ∀ a ∈ Block.atomsAll blocks, a.Fits)
    (hc : ∀ s ∈ Block.statementsAll blocks, s.Complete) :
    Spells (Block.writtenAll blocks) (fun ts => DerivesBlocks ts blocks) := by
  match blocks with
  | [] => exact .nil .nil
  | b :: blocks =>
    obtain ⟨hb, hblocks⟩ := List.forall_mem_append.1 h
    obtain ⟨hcb, hcblocks⟩ := List.forall_mem_append.1 hc
    exact (b.spells hb hcb).append (Block.spellsAll blocks hblocks hcblocks)
      fun ts us hd hds => .cons hd hds

end

/-! ## The tokens of a written program -/

/-- Classified words on one line are read to one token each. -/
theorem significant_tokenize_spread {ws : List (List Char)}
    (h : ∀ w ∈ ws, (classify w).isSome = true) :
    ∃ ts last, Token.significant (tokenize (String.ofList (spread true ws))) = ts ++ [last] ∧
      ts.map (fun t => some t.symbol) = ws.map classify ∧ last.kind = .noMore := by
  have hwords : words (String.ofList (spread true ws)).toList = ws := by
    rw [String.toList_ofList, words_spread fun w hw => isWord_of_classify (h w hw)]
  obtain ⟨ts, last, hts, hsymbols, hlast⟩ := exists_tokens_of_classified (hwords.symm ▸ h)
  rw [hwords] at hsymbols
  exact ⟨ts, last, hts, hsymbols, (Prod.mk.inj hlast).1⟩

/-! ## Programs that are parsed from some source -/

/-- A well-formed program is parsed from its source. -/
theorem Program.WellFormed.parse_source {p : Program} (h : p.WellFormed) :
    parse p.source = .ok p := by
  have hspells := Block.spellsAll p.blocks h.atoms h.statements
  obtain ⟨ts, last, hts, hsymbols, hlast⟩ := significant_tokenize_spread hspells.classified
  exact parse_of_derives hts hlast (hspells.tokens ts hsymbols)

/-- A token that can carry a value has one, so its payload is that value. -/
theorem value_of_mem_tokenize {source : String} {t : Token} (ht : t ∈ tokenize source)
    (hk : t.kind.hasValue = true) : t.value = some t.payload := by
  have hmarker : t.kind.isMarker = false := by
    cases hkind : t.kind <;> simp_all [TokenKind.hasValue, TokenKind.isMarker]
  obtain ⟨w, -, hw⟩ := exists_word_of_mem_tokenize ht hmarker
  have hsome : t.value.isSome = true := (classify_eq_some hw).2.trans hk
  obtain ⟨value, hvalue⟩ := Option.isSome_iff_exists.1 hsome
  rw [Token.payload, hvalue, Option.getD_some]

/-- A program is parsed from some source exactly if it is well formed. Its atoms are
    then what the tokens of the source carry, each as the token's value: the raw text
    of a token never takes the place of a value. -/
theorem exists_source_iff_wellFormed :
    (∀ p : Program, (∃ source, parse source = .ok p) ↔ p.WellFormed) ∧
    ∀ source : String,
      (∀ p, parse source = .ok p → p.atoms = Token.atoms (tokenize source)) ∧
      ∀ t ∈ tokenize source, t.kind.hasValue = true → t.value = some t.payload := by
  refine ⟨fun p => ⟨?_, fun h => ⟨p.source, h.parse_source⟩⟩, fun source => ⟨?_, ?_⟩⟩
  · rintro ⟨source, h⟩
    exact wellFormed_of_parse h
  · exact fun p h => atoms_of_parse h
  · exact fun t ht hk => value_of_mem_tokenize ht hk

/-- A negation under a negation, next to a number with a sign, in a statement that is
    followed by a call in parentheses. -/
theorem exists_source_signs_and_calls :
    ∃ source, parse source = .ok
      ⟨[.call ⟨"fd", [.group (.binary .sub (.negate (.negate (.number "-1"))) (.number "+.5e3"))],
          false⟩, .call ⟨"empty?", [], true⟩]⟩ := by
  exact (exists_source_iff_wellFormed.1 _).2 ⟨by decide, by decide⟩

end LogoSyntax

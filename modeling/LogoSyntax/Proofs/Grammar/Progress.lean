-- SUMMARY: Parsing gets on: loops have no more rounds than there are tokens, and productions end within fuel of the order of their tokens.
import Mathlib
import LogoSyntax.Proofs.Grammar.Consumption
import LogoSyntax.Proofs.Reader.Successive

/-!
# Progress of the productions

Every production consumes a token by the time it succeeds (`Production.consumes`). The
loops of the grammar are rounds of one action, collected until a round gives nothing
(`Loop.parse_eq_collect`), and each round that gives something has consumed a token
(`Loop.round_proceeds`). So a loop has no more rounds than there are tokens in front of it,
be the source cut short or the next token one that is repeated for ever.

No production runs out of fuel that is of the order of the pending tokens
(`Production.ends`), and more fuel changes nothing then (`Production.parse_extends`).
-/

namespace LogoSyntax

open Parse Grammar

/-! ## Endings -/

/-- An action that accepts or refuses ends with a value or with a syntax error. -/
theorem Meets.ends {α : Type} {sight : Sight} {first : TokenKind → Bool} {act : Parse α}
    {D : List Token → α → Prop} {r : Reader} (h : Meets sight first act D r.pending) :
    ∃ o s, act r = ending o s := by
  cases h with
  | @accepts us rest a hts hrest h =>
    have hagree : sight.Agree rest rest := by cases sight <;> simp [Sight.Agree]
    obtain ⟨s, hs, -⟩ := h.runs us rest rfl hagree r hts
    exact ⟨_, s, hs⟩
  | @refuses us rest t production expected hts h =>
    obtain ⟨s, hs, -⟩ := h.runs us t rest rfl rfl r hts
    exact ⟨_, s, hs⟩

theorem ending_ne_outOfFuel {α : Type} (o : Except SyntaxError α) (r s : Reader) :
    ending o r ≠ .error .outOfFuel s := by
  cases o <;> simp [ending]

/-! ## Loops -/

/-- The pieces that rounds of an action give, until a round gives nothing. -/
def Parse.collect {α : Type} (round : Nat → Parse (Option α)) : Nat → Parse (List α)
  | 0 => outOfFuel
  | n + 1 => do
    match ← round n with
    | some piece => return piece :: (← collect round n)
    | none => return []

/-- A list that begins with the piece of a round and goes on likewise is collected. -/
theorem Parse.eq_collect {α : Type} {act : Nat → Parse (List α)} {round : Nat → Parse (Option α)}
    (hzero : act 0 = outOfFuel)
    (hsucc : ∀ n, act (n + 1) = (do
      match ← round n with
      | some piece => return piece :: (← act n)
      | none => return [])) (n : Nat) : act n = collect round n := by
  induction n with
  | zero => exact hzero
  | succ n ih => rw [hsucc, ih, collect]

namespace Grammar

/-- A round of a loop that ends behind a closing delimiter. The source must not end before. -/
def roundUntil {α : Type} (close : TokenKind) (production : String) (piece : Parse α) :
    Parse (Option α) := do
  if ← check close then
    let _ ← advance
    return none
  else if ← check .noMore then
    unexpected production (.token close)
  else return some (← piece)

theorem roundUntil_bind {α β : Type} (close : TokenKind) (production : String) (piece : Parse α)
    (k : Option α → Parse β) :
    (roundUntil close production piece >>= k) = (do
      if ← check close then
        let _ ← advance
        k none
      else if ← check .noMore then
        unexpected production (.token close)
      else k (some (← piece))) := by
  have hrefuse : (unexpected production (.token close) >>= k) =
      unexpected production (.token close) := rfl
  rw [roundUntil, bind_assoc]
  refine bind_congr fun closes => ?_
  cases closes with
  | true => simp
  | false =>
    simp only [Bool.false_eq_true, if_false, bind_assoc]
    refine bind_congr fun ends => ?_
    cases ends <;> simp [hrefuse]

theorem roundUntil_proceeds {α : Type} {S : List Token} {close : TokenKind} (hS : Stream S)
    (hclose : close.isEnd = false) (production : String) {piece : Parse α}
    (hpiece : Consumes piece S) :
    Proceeds (fun piece? => piece?.isSome = true) (roundUntil close production piece) S := by
  refine Proceeds.check_ite hS (fun t ts hts hk => ?_) ?_
  · subst hts
    exact Consumes.bind hS (Consumes.advance hS (by rwa [hk])) fun _ _ _ => Keeps.pure _
  · refine Proceeds.check_ite hS (fun _ _ _ _ => (Consumes.unexpected hS _ _).proceeds) ?_
    exact Consumes.bind hS hpiece fun _ _ _ => Keeps.pure _

/-- The loops of the grammar. -/
inductive Loop where
  | blocksUntilEnd
  | blocksUntilBracket
  | itemsUntil (d : Delimiter) (production : String)
  | itemsWhile
  | operations (lhs : Expr)

namespace Loop

/-- What one round of a loop gives. -/
@[reducible] def Piece : Loop → Type
  | blocksUntilEnd | blocksUntilBracket => Block
  | itemsUntil _ _ | itemsWhile => Item
  | operations _ => Operator × Expr

/-- What a loop gives. -/
@[reducible] def Value : Loop → Type
  | blocksUntilEnd | blocksUntilBracket => List Block
  | itemsUntil _ _ | itemsWhile => List Item
  | operations _ => Expr

def parse : (l : Loop) → Nat → Parse l.Value
  | blocksUntilEnd => Grammar.blocksUntilEnd
  | blocksUntilBracket => Grammar.blocksUntilBracket
  | itemsUntil d production => Grammar.itemsUntil d production
  | itemsWhile => Grammar.itemsWhile
  | operations lhs => Grammar.operations lhs

/-- One round of a loop, which gives nothing if the loop ends there. -/
def round : (l : Loop) → Nat → Parse (Option l.Piece)
  | blocksUntilEnd, n => do
    if ← check .noMore then return none else return some (← block n)
  | blocksUntilBracket, n => roundUntil (.right .bracket) "body" (block n)
  | itemsUntil d production, n => roundUntil (.right d) production (item n)
  | itemsWhile, n => do
    if ← startsItem then return some (← item n) else return none
  | operations _, n => do
    match (← peek).kind with
    | .sign op =>
      let _ ← advance
      return some (op, ← operand n)
    | _ => return none

/-- What the pieces of a loop make. -/
def build : (l : Loop) → List l.Piece → l.Value
  | blocksUntilEnd | blocksUntilBracket | itemsUntil _ _ | itemsWhile => id
  | operations lhs => lhs.chain

/-- A loop collects the pieces of its rounds. -/
theorem parse_eq_collect (l : Loop) (n : Nat) : l.parse n = l.build <$> collect l.round n := by
  cases l with
  | blocksUntilEnd =>
    refine Eq.trans (eq_collect rfl (fun n => ?_) n) (id_map _).symm
    simp only [parse, round, Grammar.blocksUntilEnd, bind_assoc]
    refine bind_congr fun b => ?_
    cases b <;> simp
  | blocksUntilBracket =>
    refine Eq.trans (eq_collect rfl (fun n => ?_) n) (id_map _).symm
    simp only [parse, round, Grammar.blocksUntilBracket, roundUntil_bind]
  | itemsUntil d production =>
    refine Eq.trans (eq_collect rfl (fun n => ?_) n) (id_map _).symm
    simp only [parse, round, Grammar.itemsUntil, roundUntil_bind]
  | itemsWhile =>
    refine Eq.trans (eq_collect rfl (fun n => ?_) n) (id_map _).symm
    simp only [parse, round, Grammar.itemsWhile, bind_assoc]
    refine bind_congr fun b => ?_
    cases b <;> simp
  | operations lhs =>
    induction n generalizing lhs with
    | zero => rfl
    | succ n ih =>
      -- The rounds do not look at the left operand, so they are the same for the next one.
      have hchain : ∀ op rhs steps, lhs.chain ((op, rhs) :: steps) =
          (Expr.binary op lhs rhs).chain steps := fun _ _ _ => rfl
      have hnext : ∀ op rhs, Grammar.operations (.binary op lhs rhs) n =
          (Expr.binary op lhs rhs).chain <$> collect (round (operations lhs)) n :=
        fun op rhs => ih (.binary op lhs rhs)
      rw [collect]
      simp only [parse, build, round, Grammar.operations, bind_assoc, map_bind]
      refine bind_congr fun t => ?_
      cases t.kind with
      | sign op => simp [hnext, hchain]
      | _ => simp [Expr.chain]

/-- A round that gives something has consumed a token. -/
theorem round_proceeds {S : List Token} (l : Loop) (n : Nat) (hS : Stream S) :
    Proceeds (fun piece => piece.isSome = true) (l.round n) S := by
  cases l with
  | blocksUntilEnd =>
    refine Proceeds.check_ite hS (fun _ _ _ _ => Proceeds.pure (by simp)) ?_
    exact Consumes.bind hS (block_consumes n hS) fun _ _ _ => Keeps.pure _
  | blocksUntilBracket => exact roundUntil_proceeds hS rfl "body" (block_consumes n hS)
  | itemsUntil d production => exact roundUntil_proceeds hS rfl production (item_consumes n hS)
  | itemsWhile =>
    refine Keeps.bind hS (startsItem_keeps hS) fun b T hT => Proceeds.ite b ?_ ?_
    · exact Consumes.bind hT (item_consumes n hT) fun _ _ _ => Keeps.pure _
    · exact Proceeds.pure (by simp)
  | operations lhs =>
    refine Proceeds.peek_bind hS fun t ts hts => ?_
    cases hk : t.kind with
    | sign op =>
      subst hts
      refine Consumes.bind hS (Consumes.advance hS (by rw [hk]; rfl)) fun _ T hT => ?_
      exact Consumes.bind hT (operand_consumes n hT) fun _ _ _ => Keeps.pure _
    | _ => exact Proceeds.pure (by simp)

/-- The rounds of a loop that ends have consumed a token each. -/
theorem length_le_of_collect {source : String} (l : Loop) {n : Nat} {r s : Reader}
    {pieces : List l.Piece} (hr : r.Reachable source) (h : collect l.round n r = .ok pieces s) :
    pieces.length + s.pending.length ≤ r.pending.length := by
  induction n generalizing r pieces with
  | zero => cases h
  | succ n ih =>
    rw [collect] at h
    obtain ⟨piece, r', hround, h⟩ := bind_eq_ok.1 h
    obtain ⟨hr', us, hus, -, hne⟩ := (l.round_proceeds n hr.stream).leave hr
    rw [leave_of_ok hround] at hr' hus
    have hlength := congrArg List.length hus
    rw [List.length_append] at hlength
    cases piece with
    | none =>
      cases h
      simp only [List.length_nil]
      omega
    | some piece =>
      obtain ⟨rest, s', hrest, h⟩ := bind_eq_ok.1 h
      cases h
      have hpos : 0 < us.length := List.length_pos_iff.2 (hne _ _ hround rfl)
      have hle := ih hr' hrest
      simp only [List.length_cons]
      omega

end Loop

/-! ## Productions -/

/-- The productions of the grammar. -/
inductive Production where
  | block
  | control (k : Keyword)
  | body
  | statement
  | item
  | sequence (d : Delimiter) (production : String)
  | group
  | expr
  | operand

namespace Production

/-- What a production is parsed to. -/
@[reducible] def Tree : Production → Type
  | block | control _ => Block
  | body => List Block
  | statement => Statement
  | item => Item
  | sequence _ _ => List Item
  | group | expr | operand => Expr

def parse : (p : Production) → Nat → Parse p.Tree
  | block => Grammar.block
  | control k => controlBlock k
  | body => Grammar.body
  | statement => Grammar.statement
  | item => Grammar.item
  | sequence d production => Grammar.sequence d production
  | group => Grammar.group
  | expr => Grammar.expr
  | operand => Grammar.operand

/-- Where a production is parsed: the block of a keyword in front of it, and any other
    production anywhere. -/
def Applies : Production → List Token → Prop
  | control k, S => nextKind S = some (.keyword k)
  | _, _ => True

variable {S : List Token} {m n : Nat}

theorem consumes (p : Production) (n : Nat) (hS : Stream S) (hp : p.Applies S) :
    Consumes (p.parse n) S := by
  cases p with
  | block => exact block_consumes n hS
  | control k =>
    obtain ⟨t, ts, rfl⟩ := List.exists_cons_of_ne_nil hS.ne_nil
    exact controlBlock_consumes n hS (by simpa [Applies] using hp)
  | body => exact body_consumes n hS
  | statement => exact statement_consumes n hS
  | item => exact item_consumes n hS
  | sequence d production => exact sequence_consumes d production n hS
  | group => exact group_consumes n hS
  | expr => exact expr_consumes n hS
  | operand => exact operand_consumes n hS

theorem parse_extends (p : Production) (h : m ≤ n) : Extends (p.parse m) (p.parse n) := by
  cases p with
  | block => exact block_extends h
  | control k => exact .bind (.refl _) fun _ => .bind (.refl _) fun _ => control_extends h
  | body => exact body_extends h
  | statement => exact statement_extends h
  | item => exact item_extends h
  | sequence d production => exact sequence_extends h
  | group => exact group_extends h
  | expr => exact expr_extends h
  | operand => exact operand_extends h

/-- With fuel of the order of the pending tokens a production ends with a tree or with a
    syntax error. -/
theorem ends {r : Reader} (p : Production) (hr : Stream r.pending) (hp : p.Applies r.pending)
    (hn : 8 * r.pending.length + 5 ≤ n) : ∃ o s, p.parse n r = ending o s := by
  cases p with
  | block => exact (block_meets hr (by omega)).ends
  | control k =>
    obtain ⟨t, ts, hts⟩ := List.exists_cons_of_ne_nil hr.ne_nil
    rw [hts] at hr hn hp
    have hk : t.kind = .keyword k := by simpa [Applies] using hp
    obtain ⟨-, hrest⟩ := hr.tail (by rw [hk]; rfl)
    simp only [List.length_cons] at hn
    have hcontrol : Meets .near noKind (controlBlock k n) (After t.kind (DerivesControl k))
        (t :: ts) :=
      .consume hrest.ne_nil (fun u us o vs _ hne hrun => .bind (.advance hne) (.bind (.record _) hrun))
        (control_meets hrest (by omega))
    exact (hts ▸ hcontrol).ends
  | body => exact (body_meets hr (by omega)).ends
  | statement => exact (statement_meets hr (by omega)).ends
  | item => exact (item_meets hr (by omega)).ends
  | sequence d production => exact (sequence_meets production hr (by omega)).ends
  | group => exact (group_meets hr (by omega)).ends
  | expr => exact (expr_meets hr (by omega)).ends
  | operand => exact (operand_meets hr (by omega)).ends

end Production

end Grammar

/-- A whole program ends within fuel of the order of the pending tokens. -/
theorem program_ends {r : Reader} {n : Nat} (hr : Stream r.pending)
    (hn : 8 * r.pending.length + 4 ≤ n) : ∃ o s, program n r = ending o s := by
  rcases program_outcome hr hn with
    ⟨us, last, p, hus, hlast, hp⟩ | ⟨us, t, rest, production, expected, hus, hrefuses⟩
  · rw [hus, List.length_append] at hn
    obtain ⟨s, hs, -⟩ := hp.runs (n := n) hlast (by omega) r hus
    exact ⟨_, s, hs⟩
  · obtain ⟨s, hs, -⟩ := hrefuses.runs us t rest rfl rfl r hus
    exact ⟨_, s, hs⟩

theorem Reader.leave_program (r : Reader) : leave (program r.fuel) r = r.parse.2 := by
  rw [leave, parse]
  cases program r.fuel r <;> rfl

/-- Asking for a program leads from one reachable reader to another. -/
theorem Reader.Reachable.parse {source : String} {r : Reader} (hr : r.Reachable source) :
    r.parse.2.Reachable source := by
  rw [← leave_program]
  exact ((program_keeps r.fuel hr.stream).leave hr).1

/-- More fuel changes nothing once an action ends. -/
theorem Parse.Extends.eq_of_ends {α : Type} {x y : Parse α} {r : Reader} (h : Extends x y)
    (hx : ∃ o s, x r = ending o s) : y r = x r := by
  obtain ⟨o, s, hs⟩ := hx
  exact h r fun s' => hs ▸ ending_ne_outOfFuel o s s'

/-- Wherever parsing a source can get, it gets on. A production that succeeds has consumed
    a token, and in no case does one come back. Each loop collects the pieces of its rounds,
    and a round that gives a piece has consumed a token, so there are no more rounds than
    tokens. With fuel of the order of the tokens of the source no production runs out of it
    and more fuel changes nothing, and so it is with a program. -/
theorem productions_progress {source : String} {r : Reader} (hr : r.Reachable source) :
    (∀ (p : Production) (n : Nat), p.Applies r.pending →
      (leave (p.parse n) r).Reachable source ∧
      (∃ us, r.pending = us ++ (leave (p.parse n) r).pending ∧ (∀ t ∈ us, t.Classified) ∧
        ∀ tree s, p.parse n r = .ok tree s → us ≠ []) ∧
      (8 * (Token.significant (tokenize source)).length + 5 ≤ n →
        (∀ s, p.parse n r ≠ .error .outOfFuel s) ∧ ∀ m, n ≤ m → p.parse m r = p.parse n r)) ∧
    (∀ (l : Loop) (n : Nat), l.parse n = l.build <$> collect l.round n ∧
      (leave (l.round n) r).Reachable source ∧
      (∃ us, r.pending = us ++ (leave (l.round n) r).pending ∧ (∀ t ∈ us, t.Classified) ∧
        ∀ piece s, l.round n r = .ok (some piece) s → us ≠ []) ∧
      ∀ pieces s, collect l.round n r = .ok pieces s →
        pieces.length + s.pending.length ≤ r.pending.length) ∧
    (∀ n, (∃ steps, Takes (program n) r steps ∧
        ∀ done, done <+: steps → (r.walk done).Reachable source) ∧
      (8 * (Token.significant (tokenize source)).length + 4 ≤ n →
        (∀ s, program n r ≠ .error .outOfFuel s) ∧ ∀ m, n ≤ m → program m r = program n r)) ∧
    r.parse.1 ≠ .error .outOfFuel := by
  have hstream := hr.stream
  have hlength : r.pending.length ≤ (Token.significant (tokenize source)).length :=
    hr.suffix.length_le
  refine ⟨fun p n hp => ?_, fun l n => ?_, fun n => ⟨?_, fun hn => ?_⟩, ?_⟩
  · obtain ⟨hreach, us, hus, hcl, hne⟩ := (p.consumes n hstream hp).leave hr
    refine ⟨hreach, ⟨us, hus, hcl, fun tree s h => hne tree s h trivial⟩, fun hn => ?_⟩
    have hends := p.ends hstream hp (n := n) (by omega)
    refine ⟨fun s => ?_, fun m hm => (p.parse_extends hm).eq_of_ends hends⟩
    obtain ⟨o, s', hs⟩ := hends
    exact hs ▸ ending_ne_outOfFuel o s' s
  · obtain ⟨hreach, us, hus, hcl, hne⟩ := (l.round_proceeds n hstream).leave hr
    exact ⟨l.parse_eq_collect n, hreach, ⟨us, hus, hcl, fun piece s h => hne _ s h rfl⟩,
      fun pieces s => l.length_le_of_collect hr⟩
  · obtain ⟨steps, htakes, horderly, -⟩ := program_keeps n hstream r rfl
    exact ⟨steps, htakes, fun done hdone => hr.walk (horderly.of_prefix hdone)⟩
  · have hends := program_ends hstream (n := n) (by omega)
    refine ⟨fun s => ?_, fun m hm => (program_extends hm).eq_of_ends hends⟩
    obtain ⟨o, s', hs⟩ := hends
    exact hs ▸ ending_ne_outOfFuel o s' s
  · obtain ⟨o, s, hs⟩ := program_ends hstream r.le_fuel
    rw [Reader.parse, hs]
    cases o <;> simp [ending]

/-- Behind an open bracket a component that no shape fits comes back for ever. No block is
    parsed there, whatever the fuel, and the program is refused. -/
theorem progress_at_failing_component : ∃ r : Reader, r.Reachable "REPEAT 3 [ ??" ∧
    r.pending.map Token.kind = [.notFound] ∧
    (∀ n tree s, Production.block.parse n r ≠ .ok tree s) ∧ r.parse.1 ≠ .error .outOfFuel := by
  have hr := (Reader.Reachable.ofSource "REPEAT 3 [ ??").parse
  have hpending : (Reader.ofSource "REPEAT 3 [ ??").parse.2.pending.map Token.kind =
      [.notFound] := by
    cbv
  have hprogress := productions_progress hr
  refine ⟨_, hr, hpending, fun n tree s hs => ?_, hprogress.2.2.2⟩
  obtain ⟨-, ⟨us, hus, hcl, hne⟩, -⟩ := hprogress.1 .block n trivial
  rw [hus, List.map_append] at hpending
  obtain ⟨t, us, rfl⟩ := List.exists_cons_of_ne_nil (hne tree s hs)
  have ht : t.kind = .notFound := (List.cons.inj hpending).1
  simpa [ht, TokenKind.isEnd] using (hcl t List.mem_cons_self).isEnd

end LogoSyntax

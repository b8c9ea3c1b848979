-- SUMMARY: Expressions in source form: when the source form of an expression is parsed to that expression.
import Mathlib
import LogoSyntax.Proofs.Grammar.Leaves
import LogoSyntax.Proofs.Token.Place

/-!
# Source form of expressions

The source form of an expression has one word for each token. It is parsed to
the expression itself, unless a negation stands directly under a negation: the
tree can hold that, as it does for a group behind a minus sign, but an operand
takes one minus sign only, and the source form writes no group around the inner
negation.
-/

namespace LogoSyntax

open Parse Grammar Text

namespace Expr

/-- Whether a negation stands directly under a negation. -/
def hasDoubleNegation : Expr → Bool
  | binary _ lhs rhs => lhs.hasDoubleNegation || rhs.hasDoubleNegation
  | negate (negate _) => true
  | negate e => e.hasDoubleNegation
  | number _ | variableName _ => false

/-- The words of the source form. -/
def words : Expr → List (List Char)
  | binary op lhs rhs => ['('] :: (lhs.words ++ [op.symbol] :: (rhs.words ++ [[')']]))
  | negate e => ['-'] :: e.words
  | number text => [text.toList]
  | variableName name => [':' :: name.toList]

/-- What the words of the source form stand for. -/
def symbols : Expr → List (TokenKind × Option String)
  | binary op lhs rhs => (.left .parenthesis, none) ::
      (lhs.symbols ++ (.sign op, none) :: (rhs.symbols ++ [(.right .parenthesis, none)]))
  | negate e => (.sign .sub, none) :: e.symbols
  | number text => [(.number, some text)]
  | variableName name => [(.variableName, some name)]

/-! ## Words and tokens -/

theorem words_ne_nil (e : Expr) : e.words ≠ [] := by
  cases e <;> simp [words]

theorem spread_words (e : Expr) : spread true e.words = e.display := by
  induction e with
  | binary op lhs rhs ihl ihr =>
    have hl := lhs.words_ne_nil
    have hr := rhs.words_ne_nil
    simp [words, display, spread, spread_append hl, spread_append hr, spread_false hl,
      spread_false hr, ihl, ihr]
  | negate e ih => simp [words, display, spread, spread_false e.words_ne_nil, ih]
  | number text => simp [words, display, spread]
  | variableName name => simp [words, display, spread]

theorem Lexical.isWord {e : Expr} (h : e.Lexical) : ∀ w ∈ e.words, IsWord w := by
  induction e with
  | binary op lhs rhs ihl ihr =>
    have hop : IsWord [op.symbol] := isWord_singleton (by cases op <;> rfl)
    intro w hw
    simp only [words, List.mem_cons, List.mem_append, List.not_mem_nil, or_false] at hw
    rcases hw with rfl | hw | rfl | hw | rfl
    · exact isWord_singleton rfl
    · exact ihl h.1 w hw
    · exact hop
    · exact ihr h.2 w hw
    · exact isWord_singleton rfl
  | negate e ih => exact List.forall_mem_cons.2 ⟨isWord_singleton rfl, ih h⟩
  | number text => exact List.forall_mem_singleton.2 h.1
  | variableName name => exact List.forall_mem_singleton.2 h.1

/-- The words of the source form are classified as what they stand for. -/
theorem Lexical.classify_words {e : Expr} (h : e.Lexical) :
    e.words.map classify = e.symbols.map some := by
  induction e with
  | binary op lhs rhs ihl ihr =>
    have ho : classify ['('] = some (.left .parenthesis, none) := by decide
    have hop : classify [op.symbol] = some (.sign op, none) := by cases op <;> decide
    have hc : classify [')'] = some (.right .parenthesis, none) := by decide
    simp [words, symbols, ho, hop, hc, ihl h.1, ihr h.2]
  | negate e ih =>
    have hm : classify ['-'] = some (.sign .sub, none) := by decide
    simp [words, symbols, hm, ih h]
  | number text => simp [words, symbols, h.2]
  | variableName name => simp [words, symbols, h.2]

/-- The tokens of an output of the expression, in source form. -/
theorem Lexical.significant_output {e : Expr} (h : e.Lexical) : ∃ output ts last,
    Token.significant (tokenize ("OUTPUT " ++ e.toText)) = output :: ts ++ [last] ∧
      output.kind = .keyword .output ∧ ts.map Token.symbol = e.symbols ∧ last.kind = .noMore := by
  have houtput : classify "OUTPUT".toList = some (.keyword .output, none) := by decide
  have hword : IsWord "OUTPUT".toList := ⟨by decide, by simp [isBlank]⟩
  have htext : ("OUTPUT " ++ e.toText).toList = spread true ("OUTPUT".toList :: e.words) := by
    simp [toText, spread, spread_false e.words_ne_nil, spread_words]
  have hwords : Text.words ("OUTPUT " ++ e.toText).toList = "OUTPUT".toList :: e.words := by
    rw [htext, words_spread (List.forall_mem_cons.2 ⟨hword, h.isWord⟩)]
  have hclassified : (Text.words ("OUTPUT " ++ e.toText).toList).map classify =
      ((.keyword .output, none) :: e.symbols).map some := by
    rw [hwords, List.map_cons, houtput, h.classify_words, List.map_cons]
  obtain ⟨us, last, hus, hsymbols, hlast⟩ := exists_tokens_of_symbols hclassified
  obtain ⟨output, ts, rfl, ho, hts⟩ := List.map_eq_cons_iff.1 hsymbols
  exact ⟨output, ts, last, hus, (Prod.mk.inj ho).1, hts, (Prod.mk.inj hlast).1⟩

/-! ## Parsing the source form -/

theorem derives_of_symbols {e : Expr} (h : e.hasDoubleNegation = false) {ts : List Token}
    (hts : ts.map Token.symbol = e.symbols) :
    DerivesOperand ts e ∧ ((∀ e', e ≠ .negate e') → DerivesPrimary ts e) := by
  induction e generalizing ts with
  | binary op lhs rhs ihl ihr =>
    simp only [hasDoubleNegation, Bool.or_eq_false_iff] at h
    obtain ⟨opening, _, rfl, ho, hts⟩ := List.map_eq_cons_iff.1 hts
    obtain ⟨ls, _, rfl, hls, hts⟩ := List.map_eq_append_iff.1 hts
    obtain ⟨sign, _, rfl, hs, hts⟩ := List.map_eq_cons_iff.1 hts
    obtain ⟨rs, _, rfl, hrs, hts⟩ := List.map_eq_append_iff.1 hts
    obtain ⟨closing, _, rfl, hc, hnil⟩ := List.map_eq_cons_iff.1 hts
    obtain rfl := List.map_eq_nil_iff.1 hnil
    have hprimary : DerivesPrimary (opening :: (ls ++ sign :: (rs ++ [closing])))
        (.binary op lhs rhs) := by
      have hsteps : DerivesOperations (sign :: (rs ++ [])) [(op, rhs)] :=
        .cons (Prod.mk.inj hs).1 (ihr h.2 hrs).1 .nil
      have hexpr : DerivesExpr (ls ++ sign :: (rs ++ [])) (lhs.chain [(op, rhs)]) :=
        .mk (ihl h.1 hls).1 hsteps
      have hgroup : DerivesGroup (opening :: (ls ++ sign :: (rs ++ []) ++ [closing]))
          (.binary op lhs rhs) := .mk (Prod.mk.inj ho).1 hexpr (Prod.mk.inj hc).1
      simpa using DerivesPrimary.group hgroup
    exact ⟨.plain hprimary, fun _ => hprimary⟩
  | negate e ih =>
    obtain ⟨minus, us, rfl, hm, hus⟩ := List.map_eq_cons_iff.1 hts
    have hne : ∀ e', e ≠ .negate e' := by
      rintro e' rfl
      simp [hasDoubleNegation] at h
    have he : e.hasDoubleNegation = false := by
      cases e with
      | negate e' => exact absurd rfl (hne e')
      | _ => exact h
    exact ⟨.negated (Prod.mk.inj hm).1 ((ih he hus).2 hne), fun hn => absurd rfl (hn e)⟩
  | number text =>
    obtain ⟨t, _, rfl, ht, hnil⟩ := List.map_eq_cons_iff.1 hts
    obtain rfl := List.map_eq_nil_iff.1 hnil
    have hprimary : DerivesPrimary [t] (.number text) := .number (Prod.mk.inj ht)
    exact ⟨.plain hprimary, fun _ => hprimary⟩
  | variableName name =>
    obtain ⟨t, _, rfl, ht, hnil⟩ := List.map_eq_cons_iff.1 hts
    obtain rfl := List.map_eq_nil_iff.1 hnil
    have hprimary : DerivesPrimary [t] (.variableName name) := .variableName (Prod.mk.inj ht)
    exact ⟨.plain hprimary, fun _ => hprimary⟩

end Expr

/-- The action stops at a minus sign in the place of an operand. -/
def StopsAtMinus {α : Type} (act : Parse α) (S : List Token) : Prop :=
  ∃ t T, t.kind = .sign .sub ∧
    Runs act S (.error (.ofToken "operand" (.production "operand") t)) T

theorem StopsAtMinus.bind {α β : Type} {x : Parse α} {k : α → Parse β} {S : List Token}
    (h : StopsAtMinus x S) : StopsAtMinus (x >>= k) S := by
  obtain ⟨t, T, ht, hx⟩ := h
  exact ⟨t, T, ht, .bind_error hx⟩

theorem StopsAtMinus.behind {α β : Type} {x : Parse α} {k : α → Parse β} {S T : List Token}
    {a : α} (hx : Runs x S (.ok a) T) (h : StopsAtMinus (k a) T) : StopsAtMinus (x >>= k) S := by
  obtain ⟨t, U, ht, hk⟩ := h
  exact ⟨t, U, ht, .bind hx hk⟩

theorem StopsAtMinus.operand {t : Token} {S : List Token} {n : Nat}
    (h : StopsAtMinus (primary n) (t :: S)) (ht : t.kind ≠ .sign .sub) :
    StopsAtMinus (operand (n + 1)) (t :: S) := by
  obtain ⟨u, T, hu, hrun⟩ := h
  rw [Grammar.operand]
  exact ⟨u, T, hu, .check_false ht hrun⟩

/-- A double negation is not read back: the second minus sign is in the place of
    an operand. -/
theorem Expr.stops_of_symbols {e : Expr} (h : e.hasDoubleNegation = true) {ts rest : List Token}
    (hts : ts.map Token.symbol = e.symbols) (hr : rest ≠ []) :
    (∀ n, 8 * ts.length + 3 ≤ n → StopsAtMinus (operand n) (ts ++ rest)) ∧
      ((∀ e', e ≠ .negate e') →
        ∀ n, 8 * ts.length + 2 ≤ n → StopsAtMinus (primary n) (ts ++ rest)) := by
  induction e generalizing ts rest with
  | binary op lhs rhs ihl ihr =>
    obtain ⟨opening, _, rfl, ho, hts⟩ := List.map_eq_cons_iff.1 hts
    obtain ⟨ls, _, rfl, hls, hts⟩ := List.map_eq_append_iff.1 hts
    obtain ⟨sign, _, rfl, hs, hts⟩ := List.map_eq_cons_iff.1 hts
    obtain ⟨rs, _, rfl, hrs, hts⟩ := List.map_eq_append_iff.1 hts
    obtain ⟨closing, _, rfl, hc, hnil⟩ := List.map_eq_cons_iff.1 hts
    obtain rfl := List.map_eq_nil_iff.1 hnil
    replace ho := (Prod.mk.inj ho).1
    replace hs := (Prod.mk.inj hs).1
    have hprimary : ∀ n, 8 * (opening :: (ls ++ sign :: (rs ++ [closing]))).length + 2 ≤ n →
        StopsAtMinus (primary n) (opening :: (ls ++ sign :: (rs ++ [closing])) ++ rest) := by
      intro n hn
      obtain ⟨n, rfl⟩ : ∃ m, n = m + 5 := ⟨n - 5, by simp at hn; omega⟩
      simp only [List.length_cons, List.length_append, List.length_nil] at hn
      simp only [List.cons_append, List.append_assoc, List.nil_append]
      rw [primary]
      refine .behind .peek ?_
      simp only [ho]
      rw [group]
      refine .behind (.expect "group" ho (by simp)) (.bind ?_)
      rw [expr]
      by_cases hl : lhs.hasDoubleNegation = true
      · exact .bind ((ihl hl hls (by simp)).1 _ (by omega))
      · have hlrun : Runs (operand (n + 2)) (ls ++ sign :: (rs ++ closing :: rest)) (.ok lhs)
            (sign :: (rs ++ closing :: rest)) :=
          (derives_of_symbols (by simpa using hl) hls).1.runs (by simp) (by omega)
        refine .behind hlrun ?_
        rw [operations]
        refine .behind .peek ?_
        simp only [hs]
        have hrhs : rhs.hasDoubleNegation = true := by simpa [hasDoubleNegation, hl] using h
        exact .behind (.advance (by simp)) (.bind ((ihr hrhs hrs (by simp)).1 _ (by omega)))
    refine ⟨fun n hn => ?_, fun _ => hprimary⟩
    obtain ⟨n, rfl⟩ : ∃ m, n = m + 1 := ⟨n - 1, by omega⟩
    exact (hprimary n (by omega)).operand (by simp [ho])
  | negate e ih =>
    obtain ⟨minus, us, rfl, hm, hus⟩ := List.map_eq_cons_iff.1 hts
    replace hm := (Prod.mk.inj hm).1
    refine ⟨fun n hn => ?_, fun hne => absurd rfl (hne e)⟩
    obtain ⟨n, rfl⟩ : ∃ m, n = m + 2 := ⟨n - 2, by simp at hn; omega⟩
    simp only [List.length_cons] at hn
    suffices hstop : StopsAtMinus (primary (n + 1)) (us ++ rest) by
      obtain ⟨t, T, ht, hrun⟩ := hstop
      rw [operand]
      exact ⟨t, T, ht, .check_true hm (.bind (.advance (by simp [hr])) (.bind_error hrun))⟩
    by_cases hne : ∃ e', e = .negate e'
    · obtain ⟨e', rfl⟩ := hne
      obtain ⟨second, vs, rfl, hsecond, -⟩ := List.map_eq_cons_iff.1 hus
      replace hsecond := (Prod.mk.inj hsecond).1
      exact ⟨second, _, hsecond, primary_refuses (by rw [hsecond]; rfl)⟩
    · have hne' : ∀ e', e ≠ .negate e' := fun e' he => hne ⟨e', he⟩
      have he : e.hasDoubleNegation = true := by
        cases e with
        | negate e' => exact absurd rfl (hne' e')
        | _ => exact h
      exact (ih he hus hr).2 hne' _ (by omega)
  | number text => cases h
  | variableName name => cases h

/-- An output of a double negation is not read back either. -/
theorem Expr.stops_of_output {e : Expr} (h : e.hasDoubleNegation = true) {output last : Token}
    {ts : List Token} {n : Nat} (ho : output.kind = .keyword .output)
    (hts : ts.map Token.symbol = e.symbols)
    (hn : 8 * (output :: (ts ++ [last])).length + 4 ≤ n) :
    StopsAtMinus (program n) (output :: (ts ++ [last])) := by
  obtain ⟨n, rfl⟩ : ∃ m, n = m + 4 := ⟨n - 4, by omega⟩
  simp only [List.length_cons, List.length_append, List.length_nil] at hn
  have hoperand := (stops_of_symbols h hts (List.cons_ne_nil last [])).1 n (by omega)
  rw [program, blocksUntilEnd]
  refine .bind (.behind (.check .noMore) ?_)
  rw [if_neg (by simp [ho]), block]
  refine .bind (.behind .peek ?_)
  simp only [ho]
  refine .behind (.advance (by simp)) (.behind (.record _) ?_)
  rw [Grammar.control, expr]
  exact .bind (.bind hoperand)

/-- The source form of an expression is parsed to the expression, or parsing it
    stops at the second minus sign of a double negation. -/
theorem Expr.Lexical.parse_output {e : Expr} (h : e.Lexical) :
    (e.hasDoubleNegation = false → parse ("OUTPUT " ++ e.toText) = .ok ⟨[.output e]⟩) ∧
      (e.hasDoubleNegation = true → ∃ error,
        parse ("OUTPUT " ++ e.toText) = .error (.syntaxError error) ∧
          error.production = "operand" ∧ error.expected = .production "operand" ∧
          error.found = .sign .sub) := by
  obtain ⟨output, ts, last, hsig, ho, hexpr, hlast⟩ := h.significant_output
  constructor
  · intro hd
    have hoperand := (derives_of_symbols hd hexpr).1
    have he : DerivesExpr (ts ++ []) e := .mk hoperand .nil
    have hp : DerivesProgram (output :: (ts ++ []) ++ []) ⟨[.output e]⟩ :=
      .cons (.control ho (.output he)) .nil
    rw [List.append_nil, List.append_nil] at hp
    exact parse_of_derives hsig hlast hp
  · intro hd
    obtain ⟨n, hn, hparse⟩ := exists_fuel ("OUTPUT " ++ e.toText)
    rw [hsig] at hn hparse
    obtain ⟨t, T, ht, hrun⟩ := stops_of_output hd ho hexpr hn
    exact ⟨_, hparse _ T hrun, rfl, rfl, ht⟩

/-! ## Expressions of parsed programs -/

/-- An expression of a parsed program is read back from its source form exactly
    if no negation in it stands directly under a negation. -/
theorem reparse_output_iff {source : String} {p : Program} {e : Expr} (hp : parse source = .ok p)
    (he : e ∈ p.exprs) :
    parse ("OUTPUT " ++ e.toText) = .ok ⟨[.output e]⟩ ↔ e.hasDoubleNegation = false := by
  obtain ⟨hok, herror⟩ := (lexical_of_parse hp e he).parse_output
  constructor
  · intro h
    cases hd : e.hasDoubleNegation with
    | false => rfl
    | true =>
      obtain ⟨error, hparse, -⟩ := herror hd
      simp [hparse] at h
  · exact hok

theorem reparse_output_negated_sum :
    parse "OUTPUT - ( 1 + :x )" =
        .ok ⟨[.output (.negate (.binary .add (.number "1") (.variableName "x")))]⟩ ∧
      parse ("OUTPUT " ++ (Expr.negate (.binary .add (.number "1") (.variableName "x"))).toText) =
        .ok ⟨[.output (.negate (.binary .add (.number "1") (.variableName "x")))]⟩ := by
  have hone : IsNumber "1" := ⟨isWord_singleton rfl, by decide⟩
  have hx : IsVariable "x" := ⟨⟨by decide, by simp [isBlank]⟩, by decide⟩
  have hlexical : Expr.Lexical (.negate (.binary .add (.number "1") (.variableName "x"))) :=
    ⟨hone, hx⟩
  have htext : "OUTPUT " ++ (Expr.negate (.binary .add (.number "1") (.variableName "x"))).toText =
      "OUTPUT - ( 1 + :x )" := by decide
  have hp := hlexical.parse_output.1 rfl
  rw [htext] at hp
  exact ⟨hp, (reparse_output_iff hp List.mem_cons_self).2 rfl⟩

/-- A group behind a minus sign makes a double negation, which is not read back. -/
theorem not_reparse_output_double_negation :
    parse "OUTPUT - ( - 1 )" = .ok ⟨[.output (.negate (.negate (.number "1")))]⟩ ∧
      .negate (.negate (.number "1")) ∈
        Program.exprs ⟨[.output (.negate (.negate (.number "1")))]⟩ ∧
      parse ("OUTPUT " ++ (Expr.negate (.negate (.number "1"))).toText) =
        .error (.syntaxError ⟨"operand", .production "operand", .sign .sub, "-", 1, 10⟩) := by
  refine ⟨?_, List.mem_cons_self, ?_⟩
  · cbv
  · cbv

end LogoSyntax

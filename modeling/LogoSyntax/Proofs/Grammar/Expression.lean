-- SUMMARY: Expressions: every derivation is parsed, and parsing accepts or refuses as the grammar says.
import LogoSyntax.Grammar.Expression
import LogoSyntax.Proofs.Grammar.Outcome

/-!
# Expressions

The first part follows a derivation and shows that the parser goes the same way.
A group or an operand is recognized in front of anything, an expression in front
of anything but a sign. The second part follows the parser.

Fuel is counted in steps of eight for each token, because at most eight calls
are nested before a token is consumed.
-/

namespace LogoSyntax

open Parse Grammar

/-! ## From derivations to runs -/

/-- Consuming a token whose text makes the tree. -/
theorem runs_leaf {α : Type} {t : Token} {rest : List Token} {kind : TokenKind} {text : String}
    (tree : String → α) (h : t.Carries kind text) (hr : rest ≠ []) :
    Runs (advance >>= fun u => pure (tree u.payload)) (t :: rest) (.ok (tree text)) rest := by
  have hpay : t.payload = text := by simp [Token.payload, h.2]
  rw [← hpay]
  exact .bind (.advance hr) (.pure _)

mutual

/-- A primary is parsed to its tree, whatever is behind it: its last token ends it. -/
theorem DerivesPrimary.runs {ts rest : List Token} {e : Expr} {n : Nat} (h : DerivesPrimary ts e)
    (hr : rest ≠ []) (hn : 8 * ts.length + 2 ≤ n) :
    Runs (primary n) (ts ++ rest) (.ok e) rest := by
  obtain ⟨n, rfl⟩ : ∃ m, n = m + 1 := ⟨n - 1, by omega⟩
  rw [primary]
  cases h with
  | @number t text h =>
    refine .peek_bind ?_
    simp only [h.1]
    exact runs_leaf Expr.number h hr
  | @variableName t name h =>
    refine .peek_bind ?_
    simp only [h.1]
    exact runs_leaf Expr.variableName h hr
  | group h =>
    have hrun := h.runs (n := n) hr (by omega)
    obtain ⟨t, us, rfl, ht⟩ := h.begins
    refine .peek_bind ?_
    simp only [ht]
    exact hrun
termination_by n

/-- A group is parsed to its tree, whatever is behind the closing parenthesis. -/
theorem DerivesGroup.runs {ts rest : List Token} {e : Expr} {n : Nat} (h : DerivesGroup ts e)
    (hr : rest ≠ []) (hn : 8 * ts.length + 1 ≤ n) :
    Runs (group n) (ts ++ rest) (.ok e) rest := by
  obtain ⟨n, rfl⟩ : ∃ m, n = m + 1 := ⟨n - 1, by omega⟩
  rw [group]
  cases h with
  | @mk opening closing ts e ho he hc =>
    simp only [List.length_cons, List.length_append, List.length_nil] at hn
    simp only [List.cons_append, List.append_assoc, List.nil_append]
    refine .bind (.expect _ ho (by simp)) ?_
    refine .bind (he.runs (by simp) (by simp [hc]) (by omega)) ?_
    exact .bind (.expect _ hc hr) (.pure e)
termination_by n

/-- An operand is parsed to its tree, whatever is behind it. No primary begins with a minus
    sign, so a minus sign in front always negates. -/
theorem DerivesOperand.runs {ts rest : List Token} {e : Expr} {n : Nat} (h : DerivesOperand ts e)
    (hr : rest ≠ []) (hn : 8 * ts.length + 3 ≤ n) :
    Runs (operand n) (ts ++ rest) (.ok e) rest := by
  obtain ⟨n, rfl⟩ : ∃ m, n = m + 1 := ⟨n - 1, by omega⟩
  rw [operand]
  cases h with
  | plain h =>
    have hrun := h.runs (n := n) hr (by omega)
    obtain ⟨t, us, rfl, ht⟩ := h.begins
    have hne : t.kind ≠ .sign .sub := fun hk => by simp [hk, TokenKind.startsPrimary] at ht
    exact .check_false hne hrun
  | @negated minus ts e hm h =>
    simp only [List.length_cons] at hn
    refine .check_true hm (.bind (.advance (by simp [hr])) ?_)
    exact .bind (h.runs hr (by omega)) (.pure _)
termination_by n

/-- Operations are chained to the operand on their left, up to a token that is no sign. -/
theorem DerivesOperations.runs {ts rest : List Token} {steps : List (Operator × Expr)} {lhs : Expr}
    {n : Nat} (h : DerivesOperations ts steps) (hr : rest ≠ [])
    (hnext : ∀ op, nextKind rest ≠ some (.sign op)) (hn : 8 * ts.length + 1 ≤ n) :
    Runs (operations lhs n) (ts ++ rest) (.ok (lhs.chain steps)) rest := by
  obtain ⟨n, rfl⟩ : ∃ m, n = m + 1 := ⟨n - 1, by omega⟩
  rw [operations]
  cases h with
  | nil =>
    obtain ⟨t, us, rfl⟩ := List.exists_cons_of_ne_nil hr
    refine .peek_bind ?_
    cases hk : t.kind with
    | sign op => exact absurd (by simp [hk]) (hnext op)
    | _ => exact .pure _
  | @cons sign op ts us e steps hs he hrest =>
    simp only [List.length_cons, List.length_append] at hn
    simp only [List.cons_append, List.append_assoc]
    refine .peek_bind ?_
    simp only [hs]
    refine .bind (.advance (by simp [hr])) ?_
    refine .bind (he.runs (by simp [hr]) (by omega)) ?_
    exact hrest.runs hr hnext (by omega)
termination_by n

/-- An expression is parsed to its tree in front of anything but a sign. A sign would go on
    with it. -/
theorem DerivesExpr.runs {ts rest : List Token} {e : Expr} {n : Nat} (h : DerivesExpr ts e)
    (hr : rest ≠ []) (hnext : ∀ op, nextKind rest ≠ some (.sign op))
    (hn : 8 * ts.length + 4 ≤ n) :
    Runs (expr n) (ts ++ rest) (.ok e) rest := by
  obtain ⟨n, rfl⟩ : ∃ m, n = m + 1 := ⟨n - 1, by omega⟩
  rw [expr]
  cases h with
  | @mk ts us first steps hf hs =>
    simp only [List.length_append] at hn
    rw [List.append_assoc]
    refine .bind (hf.runs (by simp [hr]) (by omega)) ?_
    exact hs.runs hr hnext (by omega)
termination_by n

end

/-! ## Beginnings of phrases -/

theorem completable_expr : Completable DerivesExpr [] :=
  ⟨[.sample .number "0"], .number "0", by simp [Token.sample],
    .mk (.plain (.number ⟨rfl, rfl⟩)) .nil⟩

/-- A parenthesis can be followed up to a group. -/
theorem completable_group {t : Token} (ht : t.kind = .left .parenthesis) :
    Completable DerivesGroup [t] := by
  obtain ⟨us, e, hus, he⟩ := completable_expr
  refine ⟨us ++ [.sample (.right .parenthesis) ")"], e, ?_, .mk ht he rfl⟩
  intro u hu
  rcases List.mem_append.1 hu with hu | hu
  · exact hus u hu
  · rw [List.mem_singleton.1 hu]
    rfl

/-- Every token that starts a primary can be followed up to one. -/
theorem completable_primary {t : Token} (ht : t.Classified) (hk : t.kind.startsPrimary = true) :
    Completable DerivesPrimary [t] := by
  cases h : t.kind with
  | number =>
    obtain ⟨text, htext⟩ := ht.exists_carries h rfl
    exact .of_derives (.number htext)
  | variableName =>
    obtain ⟨name, hname⟩ := ht.exists_carries h rfl
    exact .of_derives (.variableName hname)
  | left d =>
    cases d with
    | parenthesis => exact (completable_group h).mono fun _ _ => .group
    | _ => simp [h, TokenKind.startsPrimary] at hk
  | _ => simp [h, TokenKind.startsPrimary] at hk

theorem completable_operand_negated {minus : Token} {ts : List Token}
    (hm : minus.kind = .sign .sub) (h : Completable DerivesPrimary ts) :
    Completable DerivesOperand (minus :: ts) := by
  obtain ⟨us, e, hus, he⟩ := h
  exact ⟨us, .negate e, hus, .negated hm he⟩

/-- Every token that an error in front of an operand says was expected can be followed up to
    an operand. -/
theorem completable_operand {t : Token} (ht : t.Classified)
    (hk : Expected.admits false (.production "operand") t.kind = true) :
    Completable DerivesOperand [t] := by
  by_cases hs : t.kind.startsPrimary = true
  · exact (completable_primary ht hs).mono fun _ _ => .plain
  · have hm : t.kind = .sign .sub := by simpa [Expected.admits, hs] using hk
    exact completable_operand_negated hm
      ⟨[.sample .number "0"], .number "0", by simp [Token.sample], .number ⟨rfl, rfl⟩⟩

/-! ## From runs to derivations -/

/-- A token that starts no primary is reported in place of an operand. -/
theorem primary_refuses {t : Token} {rest : List Token} {n : Nat}
    (hk : t.kind.startsPrimary = false) :
    Runs (primary (n + 1)) (t :: rest)
      (.error (.ofToken "operand" (.production "operand") t)) (t :: rest) := by
  rw [primary]
  refine .peek_bind ?_
  cases h : t.kind with
  | number | variableName => simp [h, TokenKind.startsPrimary] at hk
  | left d =>
    cases d with
    | parenthesis => simp [h, TokenKind.startsPrimary] at hk
    | _ => exact .unexpected _ _
  | _ => exact .unexpected _ _

/-- An operand that begins neither with a minus sign nor as a primary. -/
theorem operand_refuses {t : Token} {n : Nat} (hm : t.kind ≠ .sign .sub)
    (hs : t.kind.startsPrimary = false) :
    Refuses noKind (operand (n + 2)) DerivesOperand [] t "operand" (.production "operand") := by
  refine ⟨fun us u rest hus hu => ?_, fun _ => rfl, rfl, false, by simp, ?_, ?_⟩
  · obtain rfl : us = [] := by simpa using hus
    obtain ⟨hk, -⟩ := Token.symbol_eq_iff.1 hu
    rw [operand]
    exact .check_false (by rwa [hk]) (primary_refuses (by rwa [hk]))
  · simp [Expected.admits, hs, hm]
  · exact fun s hs hadm => completable_operand hs hadm

/-- A minus sign in front of something else than a primary, as of another minus sign. -/
theorem operand_refuses_negated {t u : Token} {n : Nat} (hm : t.kind = .sign .sub)
    (hs : u.kind.startsPrimary = false) :
    Refuses noKind (operand (n + 2)) DerivesOperand [t] u "operand" (.production "operand") := by
  refine ⟨fun us v rest hus hv => ?_, by simp, rfl, true, by simp [hm], ?_, ?_⟩
  · obtain ⟨w, us', rfl, hw, hnil⟩ := List.map_eq_cons_iff.1 hus
    obtain rfl : us' = [] := by simpa using hnil
    have hwk : w.kind = .sign .sub := (Token.symbol_eq_iff.1 hw).1.trans hm
    have hvk : v.kind.startsPrimary = false := by rwa [(Token.symbol_eq_iff.1 hv).1]
    rw [operand]
    exact .check_true hwk (.bind (.advance (by simp)) (.bind_error (primary_refuses hvk)))
  · simp [Expected.admits, hs]
  · intro s hcl hadm
    exact completable_operand_negated hm
      (completable_primary hcl (by simpa [Expected.admits] using hadm))

mutual

/-- Behind a token that starts a primary, one is accepted, or a token in a group is refused.
    That token is never the first one. -/
theorem primary_meets {t : Token} {rest : List Token} {n : Nat} (h : Stream (t :: rest))
    (hk : t.kind.startsPrimary = true) (hn : 8 * (t :: rest).length + 2 ≤ n) :
    Meets .near TokenKind.startsPrimary (primary n) DerivesPrimary (t :: rest) := by
  obtain ⟨n, rfl⟩ : ∃ m, n = m + 1 := ⟨n - 1, by omega⟩
  rw [primary]
  cases hkind : t.kind with
  | number =>
    refine .mono ?_ (.peek_leaf Expr.number h (by rw [hkind]; rfl) fun u hu => by
      simp only [hu, hkind])
    rintro _ _ ⟨u, text, rfl, hu, rfl⟩
    exact .number (hkind ▸ hu)
  | variableName =>
    refine .mono ?_ (.peek_leaf Expr.variableName h (by rw [hkind]; rfl) fun u hu => by
      simp only [hu, hkind])
    rintro _ _ ⟨u, name, rfl, hu, rfl⟩
    exact .variableName (hkind ▸ hu)
  | left d =>
    cases d with
    | parenthesis =>
      have hgroup : Meets .near _ (group n) DerivesPrimary (t :: rest) :=
        (group_meets h (by omega)).mono fun _ _ => .group
      exact .peek_bind (fun u hu => by simp only [hu, hkind]) (fun _ => by simp [hkind]) hgroup
    | _ => simp [hkind, TokenKind.startsPrimary] at hk
  | _ => simp [hkind, TokenKind.startsPrimary] at hk
termination_by n

/-- A group is accepted, or the first token is refused that no group goes on with. -/
theorem group_meets {ts : List Token} {n : Nat} (h : Stream ts) (hn : 8 * ts.length + 1 ≤ n) :
    Meets .near (· == .left .parenthesis) (group n) DerivesGroup ts := by
  obtain ⟨n, rfl⟩ : ∃ m, n = m + 1 := ⟨n - 1, by omega⟩
  rw [group]
  have hclose : ∀ e : Expr, Completable (After (.right .parenthesis) (Nothing e)) [] :=
    fun e => (Completable.nothing e).after
  refine .mono ?_ (.expect_bind "group" h rfl (completable_expr.seq hclose)
    fun t rest hts hrest => ?_)
  · rintro _ e ⟨opening, _, rfl, ho, ts, _, e', rfl, he, closing, _, rfl, hc, rfl, rfl⟩
    exact .mk ho he hc
  · simp only [hts, List.length_cons] at hn
    refine .bind hrest (expr_meets hrest (by omega)) (fun us e vs _ hvs _ => ?_) hclose
    exact (Meets.expect_bind "group" hvs rfl (.nothing e) fun _ _ _ hs => .pure e hs.ne_nil).forget
termination_by n

/-- An operand is accepted, or the first token is refused that no operand goes on with. The
    minus sign that negates is looked at first, and then a primary has to begin. -/
theorem operand_meets {ts : List Token} {n : Nat} (h : Stream ts) (hn : 8 * ts.length + 3 ≤ n) :
    Meets .near noKind (operand n) DerivesOperand ts := by
  obtain ⟨t, rest, rfl⟩ := List.exists_cons_of_ne_nil h.ne_nil
  obtain ⟨n, rfl⟩ : ∃ m, n = m + 2 := ⟨n - 2, by simp only [List.length_cons] at hn; omega⟩
  by_cases hm : t.kind = .sign .sub
  · -- The minus sign is consumed in either case, so the refusal is of the second token.
    obtain ⟨-, hrest⟩ := h.tail (by rw [hm]; rfl)
    obtain ⟨u, rest, rfl⟩ := List.exists_cons_of_ne_nil hrest.ne_nil
    cases hu : u.kind.startsPrimary with
    | true =>
      have hprimary := primary_meets (n := n + 1) hrest hu (by
        simp only [List.length_cons] at hn ⊢
        omega)
      rw [operand]
      refine .check_true hm id (.mono ?_ (.advance_bind hrest.ne_nil (hprimary.map Expr.negate)))
      rintro _ _ ⟨minus, us, rfl, hminus, e, he, rfl⟩
      exact .negated (hminus.trans hm) he
    | false =>
      exact .refuses (List.singleton_append (l := u :: rest)).symm (operand_refuses_negated hm hu)
  · cases hs : t.kind.startsPrimary with
    | true =>
      have hprimary := primary_meets (n := n + 1) h hs (by omega)
      rw [operand]
      exact .check_false hm id (hprimary.mono fun _ _ => .plain).forget
    | false =>
      exact .refuses (List.nil_append _).symm (operand_refuses hm hs)
termination_by n

/-- Operations are accepted up to the first token that is no sign, or an operand behind a
    sign is refused. The tree is chained on the way, so the promise is about the operand on
    the left as well. -/
theorem operations_meets {ts : List Token} {lhs : Expr} {n : Nat}
    (h : Stream ts) (hn : 8 * ts.length + 1 ≤ n) :
    Meets .near noKind (operations lhs n)
      (fun ts e => ∃ steps, DerivesOperations ts steps ∧ e = lhs.chain steps) ts := by
  obtain ⟨n, rfl⟩ : ∃ m, n = m + 1 := ⟨n - 1, by omega⟩
  rw [operations]
  obtain ⟨t, rest, rfl⟩ := List.exists_cons_of_ne_nil h.ne_nil
  cases hk : t.kind with
  | sign op =>
    obtain ⟨-, hrest⟩ := h.tail (by rw [hk]; rfl)
    simp only [List.length_cons] at hn
    have htail : Meets .near noKind (operand n >>= fun rhs => operations (.binary op lhs rhs) n)
        (Seq DerivesOperand fun rhs ts e =>
          ∃ steps, DerivesOperations ts steps ∧ e = (Expr.binary op lhs rhs).chain steps) rest := by
      refine .bind hrest (operand_meets hrest (by omega)) (fun us rhs vs hts hvs _ => ?_)
        fun rhs => .of_derives ⟨[], .nil, rfl⟩
      simp only [hts, List.length_append] at hn
      exact operations_meets hvs (by omega)
    refine .peek_bind (fun u hu => by simp only [hu, hk]) id
      (.mono ?_ (.advance_bind hrest.ne_nil htail))
    rintro _ _ ⟨sign, _, rfl, hsign, us, vs, rhs, rfl, hrhs, steps, hsteps, rfl⟩
    exact ⟨(op, rhs) :: steps, .cons (hsign.trans hk) hrhs hsteps, rfl⟩
  | _ =>
    refine .peek_bind (fun u hu => by simp only [hu, hk]) id (.mono ?_ (.pure lhs h.ne_nil))
    rintro _ _ ⟨rfl, rfl⟩
    exact ⟨[], .nil, rfl⟩
termination_by n

/-- An expression is accepted, or the first token is refused that no expression goes on
    with. -/
theorem expr_meets {ts : List Token} {n : Nat} (h : Stream ts) (hn : 8 * ts.length + 4 ≤ n) :
    Meets .near noKind (expr n) DerivesExpr ts := by
  obtain ⟨n, rfl⟩ : ∃ m, n = m + 1 := ⟨n - 1, by omega⟩
  rw [expr]
  have hnil (first : Expr) :
      Completable (fun ts e => ∃ steps, DerivesOperations ts steps ∧ e = first.chain steps) [] :=
    .of_derives ⟨[], .nil, rfl⟩
  refine .mono ?_ (.bind h (operand_meets h (by omega)) (fun us e rest hts hs _ => ?_) hnil)
  · rintro _ _ ⟨us, vs, first, rfl, hf, steps, hs, rfl⟩
    exact .mk hf hs
  · simp only [hts, List.length_append] at hn
    exact operations_meets hs (by omega)
termination_by n

end

end LogoSyntax

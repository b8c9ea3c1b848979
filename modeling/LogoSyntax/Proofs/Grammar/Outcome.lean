-- SUMMARY: What a parsing action promises on a stream: a phrase, or an error at the first token that no phrase can go on with.
import LogoSyntax.Proofs.Grammar.Lookahead
import LogoSyntax.Proofs.Reader.Runs

/-!
# Outcomes

`Meets sight first act D ts` says what the action `act`, which parses the phrases
of `D`, does on the stream `ts`. Either it accepts a front of `ts` that is a
phrase, or it refuses a token of `ts`. What it refuses is explained: a token of
every kind that the error says was expected can be followed up to a phrase.

Both cases are local. The outcome is the same on every stream whose front has the
same symbols, as long as the tokens behind an accepted phrase agree in the given
sight. A token that is among `first` is not refused right away.

The rules below follow the way in which parsing actions are composed. With them,
the promise of a production is put together from those of its parts.
-/

namespace LogoSyntax

open Parse

/-! ## Phrases -/

/-- Some matched tokens complete the given ones to a phrase. -/
def Completable {α : Type} (D : List Token → α → Prop) (ts : List Token) : Prop :=
  ∃ us a, (∀ u ∈ us, u.matched = true) ∧ D (ts ++ us) a

/-- A phrase of `D` and a phrase of `E`, which may depend on the tree of the first. -/
def Seq {α β : Type} (D : List Token → α → Prop) (E : α → List Token → β → Prop) :
    List Token → β → Prop :=
  fun ts b => ∃ us vs a, ts = us ++ vs ∧ D us a ∧ E a vs b

/-- A token of one kind and a phrase of `D`. -/
def After {α : Type} (kind : TokenKind) (D : List Token → α → Prop) : List Token → α → Prop :=
  fun ts a => ∃ t us, ts = t :: us ∧ t.kind = kind ∧ D us a

/-- A phrase of `D` and a token of one kind. -/
def Before {α : Type} (D : List Token → α → Prop) (kind : TokenKind) : List Token → α → Prop :=
  fun ts a => ∃ us t, ts = us ++ [t] ∧ t.kind = kind ∧ D us a

/-- No tokens at all. -/
def Nothing {α : Type} (a : α) : List Token → α → Prop :=
  fun ts b => ts = [] ∧ b = a

/-- A token of one kind, whose value makes the tree. -/
def Leaf {α : Type} (kind : TokenKind) (tree : String → α) : List Token → α → Prop :=
  fun ts a => ∃ t text, ts = [t] ∧ t.Carries kind text ∧ a = tree text

/-- A matched token with some text. -/
def Token.sample (kind : TokenKind) (text : String) : Token :=
  { kind, raw := text, value := some text, matched := true, line := 1, col := 1 }

namespace Completable

variable {α β : Type} {D D' : List Token → α → Prop} {E : α → List Token → β → Prop}
  {ts us : List Token}

theorem mono (hD : ∀ ts a, D ts a → D' ts a) (h : Completable D ts) : Completable D' ts := by
  obtain ⟨us, a, hus, hd⟩ := h
  exact ⟨us, a, hus, hD _ _ hd⟩

theorem of_derives {a : α} (h : D ts a) : Completable D ts :=
  ⟨[], a, by simp, by simpa using h⟩

theorem of_phrase {a : α} (hus : ∀ u ∈ us, u.matched = true) (h : D us a) : Completable D [] :=
  ⟨us, a, hus, h⟩

theorem exists_phrase (h : Completable D []) : ∃ us a, (∀ u ∈ us, u.matched = true) ∧ D us a :=
  h

theorem seq (h : Completable D ts) (hE : ∀ a, Completable (E a) []) :
    Completable (Seq D E) ts := by
  obtain ⟨us, a, hus, hd⟩ := h
  obtain ⟨vs, b, hvs, he⟩ := hE a
  refine ⟨us ++ vs, b, ?_, ts ++ us, vs, a, by simp, hd, he⟩
  intro u hu
  exact (List.mem_append.1 hu).elim (hus u) (hvs u)

theorem seq_append {a : α} (hd : D ts a) (h : Completable (E a) us) :
    Completable (Seq D E) (ts ++ us) := by
  obtain ⟨vs, b, hvs, he⟩ := h
  exact ⟨vs, b, hvs, ts, us ++ vs, a, by simp, hd, he⟩

theorem after_cons {kind : TokenKind} {t : Token} (ht : t.kind = kind) (h : Completable D ts) :
    Completable (After kind D) (t :: ts) := by
  obtain ⟨us, a, hus, hd⟩ := h
  exact ⟨us, a, hus, t, ts ++ us, rfl, ht, hd⟩

theorem after {kind : TokenKind} (h : Completable D []) : Completable (After kind D) [] := by
  obtain ⟨us, a, hus, hd⟩ := h
  exact ⟨.sample kind "" :: us, a, List.forall_mem_cons.2 ⟨rfl, hus⟩, _, us, rfl, rfl, hd⟩

theorem before_nil {kind : TokenKind} {a : α} (hd : D [] a) {t : Token} (ht : t.kind = kind) :
    Completable (Before D kind) [t] :=
  of_derives ⟨[], t, rfl, ht, hd⟩

theorem before {kind : TokenKind} {a : α} (hd : D [] a) : Completable (Before D kind) [] :=
  ⟨[.sample kind ""], a, by simp [Token.sample], [], _, rfl, rfl, hd⟩

theorem nothing (a : α) : Completable (Nothing a) [] :=
  of_derives ⟨rfl, rfl⟩

end Completable

/-! ## Errors -/

/-- No kind at all: an action may refuse a token of any kind right away. -/
def noKind : TokenKind → Bool :=
  fun _ => false

/-- Whether a marker is expected and no component. -/
def Expected.isMarker : Expected → Bool
  | token kind => kind.isMarker
  | production _ => false

theorem Token.exists_classified {kind : TokenKind} (h : kind.isMarker = false) :
    ∃ s : Token, s.Classified ∧ s.kind = kind := by
  refine ⟨⟨kind, "", if kind.hasValue then some "" else none, true, 1, 1⟩, ⟨rfl, h, ?_⟩, rfl⟩
  cases kind.hasValue <;> rfl

theorem Expected.exists_admits {expected : Expected} (h : expected.isMarker = false)
    (negated : Bool) : ∃ s : Token, s.Classified ∧ expected.admits negated s.kind = true := by
  cases expected with
  | token kind =>
    obtain ⟨s, hs, hk⟩ := Token.exists_classified h
    exact ⟨s, hs, by simp [admits, hk]⟩
  | production name =>
    by_cases hblock : name = "operand" ∨ name = "item"
    · obtain ⟨s, hs, hk⟩ : ∃ s : Token, s.Classified ∧ s.kind = .number :=
        Token.exists_classified rfl
      refine ⟨s, hs, ?_⟩
      rcases hblock with rfl | rfl
      · simp [admits, hk, TokenKind.startsPrimary]
      · simp [admits, hk, TokenKind.startsItem]
    · obtain ⟨s, hs, hk⟩ : ∃ s : Token, s.Classified ∧ s.kind = .procedure :=
        Token.exists_classified rfl
      rw [not_or] at hblock
      exact ⟨s, hs, by simp [admits, hk, hblock.1, hblock.2, TokenKind.startsBlock]⟩

theorem Token.Classified.exists_carries {t : Token} {kind : TokenKind} (h : t.Classified)
    (hk : t.kind = kind) (hv : kind.hasValue = true) : ∃ text, t.Carries kind text := by
  subst hk
  obtain ⟨text, htext⟩ := Option.isSome_iff_exists.1 (h.isSome_value.trans hv)
  exact ⟨text, rfl, htext⟩

/-- The error at `t` behind the tokens `ts` is explained by the expectation: it
    does not admit `t`, it admits some tokens, and all of these can go on to a phrase. -/
def Explains {α : Type} (expected : Expected) (D : List Token → α → Prop) (ts : List Token)
    (t : Token) : Prop :=
  expected.isMarker = false ∧
    ∃ negated, (negated = true → nextKind ts.reverse = some (.sign .sub)) ∧
      expected.admits negated t.kind = false ∧
      ∀ s : Token, s.Classified → expected.admits negated s.kind = true → Completable D (ts ++ [s])

theorem Explains.completable {α : Type} {expected : Expected} {D : List Token → α → Prop}
    {ts : List Token} {t : Token} (h : Explains expected D ts t) : Completable D ts := by
  obtain ⟨hmarker, negated, -, -, hs⟩ := h
  obtain ⟨s, hcl, hadm⟩ := expected.exists_admits hmarker negated
  obtain ⟨us, a, hus, hd⟩ := hs s hcl hadm
  exact ⟨s :: us, a, List.forall_mem_cons.2 ⟨hcl.matched, hus⟩, by simpa using hd⟩

theorem Explains.imp {α β : Type} {expected : Expected} {D : List Token → α → Prop}
    {E : List Token → β → Prop} {us : List Token} {t : Token} (ts : List Token)
    (h : Explains expected D us t)
    (hc : ∀ s, Completable D (us ++ [s]) → Completable E (ts ++ us ++ [s])) :
    Explains expected E (ts ++ us) t := by
  obtain ⟨hmarker, negated, hneg, ht, hs⟩ := h
  refine ⟨hmarker, negated, fun hn => ?_, ht, fun s hcl hadm => hc s (hs s hcl hadm)⟩
  have := hneg hn
  cases hr : us.reverse with
  | nil => simp [hr, nextKind] at this
  | cons v vs => simpa [hr] using this

/-! ## Promises -/

section Promises

variable {α β : Type}

/-- `act` turns the phrase `ts` into `a`, in front of all that agrees with `rest`. -/
structure Accepts (sight : Sight) (act : Parse α) (D : List Token → α → Prop) (ts : List Token)
    (a : α) (rest : List Token) : Prop where
  derives : D ts a
  runs : ∀ us rest', us.map Token.symbol = ts.map Token.symbol → sight.Agree rest rest' →
    Runs act (us ++ rest') (.ok a) rest'

/-- `act` stops in front of `t`, behind the tokens `ts` and whatever follows. -/
structure Refuses (first : TokenKind → Bool) (act : Parse α) (D : List Token → α → Prop)
    (ts : List Token) (t : Token) (production : String) (expected : Expected) : Prop where
  runs : ∀ us u rest, us.map Token.symbol = ts.map Token.symbol → u.symbol = t.symbol →
    Runs act (us ++ u :: rest) (.error (.ofToken production expected u)) (u :: rest)
  progress : ts = [] → first t.kind = false
  explains : Explains expected D ts t

/-- `act` accepts a front of the stream `ts`, or refuses one of its tokens. -/
inductive Meets (sight : Sight) (first : TokenKind → Bool) (act : Parse α)
    (D : List Token → α → Prop) (ts : List Token) : Prop where
  | accepts {us rest : List Token} {a : α} (hts : ts = us ++ rest) (hrest : rest ≠ [])
      (h : Accepts sight act D us a rest)
  | refuses {us rest : List Token} {t : Token} {production : String} {expected : Expected}
      (hts : ts = us ++ t :: rest) (h : Refuses first act D us t production expected)

namespace Meets

variable {sight : Sight} {first first' : TokenKind → Bool} {x act act' : Parse α} {k : α → Parse β}
  {D D' : List Token → α → Prop} {E : α → List Token → β → Prop} {ts : List Token}

theorem mono (hD : ∀ ts a, D ts a → D' ts a) (h : Meets sight first act D ts) :
    Meets sight first act D' ts := by
  cases h with
  | accepts hts hrest h => exact .accepts hts hrest ⟨hD _ _ h.derives, h.runs⟩
  | @refuses us rest t _ _ hts h =>
    exact .refuses hts ⟨h.runs, h.progress, h.explains.imp [] fun s hc => hc.mono hD⟩

theorem forget (h : Meets sight first act D ts) : Meets sight noKind act D ts := by
  cases h with
  | accepts hts hrest h => exact .accepts hts hrest h
  | refuses hts h => exact .refuses hts ⟨h.runs, fun _ => rfl, h.explains⟩

/-- An action that agrees in the near sight agrees in the far sight. -/
theorem far (h : Meets .near first act D ts) : Meets .far first act D ts := by
  cases h with
  | accepts hts hrest h =>
    exact .accepts hts hrest ⟨h.derives, fun us rest' hus hag => h.runs us rest' hus hag.1⟩
  | refuses hts h => exact .refuses hts h

/-- An action that runs like another one wherever the next kind is the same keeps
    the promises of the other. -/
theorem of_next {t : Token} {rest : List Token}
    (hrun : ∀ u us o vs, u.kind = t.kind → Runs act (u :: us) o vs → Runs act' (u :: us) o vs)
    (hfirst : first' t.kind = true → first t.kind = true)
    (h : Meets sight first act D (t :: rest)) : Meets sight first' act' D (t :: rest) := by
  have transfer : ∀ us o vs, nextKind us = some t.kind → Runs act us o vs → Runs act' us o vs := by
    intro us o vs hnext hruns
    cases us with
    | nil => simp [nextKind] at hnext
    | cons u us => exact hrun u us o vs (by simpa using hnext) hruns
  cases h with
  | accepts hts hrest h =>
    refine .accepts hts hrest ⟨h.derives, fun us rest' hus hag => ?_⟩
    refine transfer _ _ _ ?_ (h.runs us rest' hus hag)
    rw [nextKind_append hus hag.next.symm, ← hts, nextKind_cons]
  | @refuses ws rest' u production expected hts h =>
    have hr : Refuses first' act' D ws u production expected := by
      refine ⟨fun us v vs hus hv => ?_, fun hnil => ?_, h.explains⟩
      · refine transfer _ _ _ ?_ (h.runs us v vs hus hv)
        have hvk : nextKind (v :: vs) = nextKind (u :: rest') := by
          simp [(Token.symbol_eq_iff.1 hv).1]
        rw [nextKind_append hus hvk, ← hts, nextKind_cons]
      · subst hnil
        obtain rfl : t = u := (List.cons.inj hts).1
        cases hf : first' t.kind with
        | false => rfl
        | true => simpa [h.progress rfl] using hfirst hf
    exact .refuses hts hr

/-- An action that runs like another one wherever an item begins, or wherever none
    does, keeps the promises of the other in far sight. -/
theorem of_beginsItem
    (hrun : ∀ us o vs, us ≠ [] → beginsItem us = beginsItem ts →
      Runs act us o vs → Runs act' us o vs)
    (hfirst : first (.left .parenthesis) = true) (hts : ts ≠ []) (h : Meets .far first act D ts) :
    Meets .far first act' D ts := by
  cases h with
  | @accepts us rest a hts' hrest h =>
    refine .accepts hts' hrest ⟨h.derives, fun us' rest' hus hag => ?_⟩
    have happ := hag.append hus.symm
    refine hrun _ _ _ ?_ (hts' ▸ happ.2.symm) (h.runs us' rest' hus hag)
    intro hnil
    rw [hnil, ← hts'] at happ
    obtain ⟨t, rest, rfl⟩ := List.exists_cons_of_ne_nil hts
    cases happ.1
  | @refuses us rest t production expected hts' h =>
    have hrefuses : Refuses first act' D us t production expected := by
      refine ⟨fun us' u rest' hus hu => ?_, h.progress, h.explains⟩
      have happ : Sight.far.Agree (us ++ t :: rest) (us' ++ u :: rest') :=
        .of_symbol hus.symm hu.symm
          (.inr fun hnil hp => by simpa [hp, hfirst] using h.progress hnil)
      exact hrun _ _ _ (by simp) (hts' ▸ happ.2.symm) (h.runs us' u rest' hus hu)
    exact .refuses hts' hrefuses

/-! ## Rules -/

theorem pure (a : α) (hts : ts ≠ []) : Meets sight first (pure a) (Nothing a) ts :=
  .accepts (List.nil_append ts).symm hts ⟨⟨rfl, rfl⟩, fun us rest' hus _ => by
    obtain rfl : us = [] := by simpa using hus
    exact .pure a⟩

/-- Stopping in front of a token that the expectation does not admit. -/
theorem unexpected {t : Token} {rest : List Token} (production : String) (expected : Expected)
    (hmarker : expected.isMarker = false) (hfirst : first t.kind = false)
    (ht : expected.admits false t.kind = false)
    (hs : ∀ s : Token, s.Classified → expected.admits false s.kind = true → Completable D [s]) :
    Meets sight first (unexpected production expected) D (t :: rest) :=
  .refuses (List.nil_append _).symm
    { runs := fun us u rest' hus _ => by
        obtain rfl : us = [] := by simpa using hus
        exact .unexpected production expected
      progress := fun _ => hfirst
      explains := ⟨hmarker, false, by simp, ht, by simpa using hs⟩ }

/-- One action after another. If the first one looks behind a parenthesis, then
    the second one is in far sight too, or its phrases reach behind it. -/
theorem bind_of {s : Sight} (hstream : Stream ts) (hx : Meets s first x D ts)
    (hk : ∀ us a rest, ts = us ++ rest → Stream rest → D us a →
      Meets sight first' (k a) (E a) rest)
    (hE : ∀ a, Completable (E a) []) (hD : ∀ a, D [] a → ∀ kind, first kind = false)
    (hs : s = .near ∨ first' (.left .parenthesis) = true ∧
      (sight = .far ∨ ∀ a vs b, E a vs b → ∃ us t, vs = us ++ [t] ∧ t.kind ≠ .left .parenthesis)) :
    Meets sight first (x >>= k) (Seq D E) ts := by
  cases hx with
  | @refuses us rest t production expected hts h =>
    have hr : Refuses first (x >>= k) (Seq D E) us t production expected :=
      { runs := fun us' u rest' hus hu => .bind_error (h.runs us' u rest' hus hu)
        progress := h.progress
        explains := h.explains.imp [] fun v hc => hc.seq hE }
    exact .refuses hts hr
  | @accepts us rest a hts hrest h =>
    cases hk us a rest hts ((hts ▸ hstream).split hrest).2 h.derives with
    | @accepts vs rest' b hvs hrest' hb =>
      have ha : Accepts sight (x >>= k) (Seq D E) (us ++ vs) b rest' := by
        refine ⟨⟨us, vs, a, rfl, h.derives, hb.derives⟩, fun ws rest'' hws hag => ?_⟩
        rw [List.map_append] at hws
        obtain ⟨us', vs', rfl, hus, hvs'⟩ := List.map_eq_append_iff.1 hws
        have hsee : s.Agree rest (vs' ++ rest'') := by
          rw [hvs]
          cases s with
          | near => exact nextKind_append hvs'.symm hag.next
          | far =>
            rcases hs.resolve_left (by simp) with ⟨-, rfl | hend⟩
            · exact hag.append hvs'.symm
            · obtain ⟨ws, t, rfl, ht⟩ := hend a vs b hb.derives
              rw [List.map_append] at hvs'
              obtain ⟨ws', _, rfl, hws', hlast⟩ := List.map_eq_append_iff.1 hvs'
              obtain ⟨t', _, rfl, ht', hnil⟩ := List.map_eq_cons_iff.1 hlast
              obtain rfl := List.map_eq_nil_iff.1 hnil
              simp only [List.append_assoc, List.singleton_append]
              exact .of_symbol hws'.symm ht'.symm (.inr fun _ => ht)
        rw [List.append_assoc]
        exact .bind (h.runs us' _ hus hsee) (hb.runs vs' rest'' hvs' hag)
      exact .accepts (by rw [hts, hvs, List.append_assoc]) hrest' ha
    | @refuses vs rest' t production expected hvs hr =>
      have hr' : Refuses first (x >>= k) (Seq D E) (us ++ vs) t production expected := by
        refine ⟨fun ws u rest'' hws hu => ?_, fun hnil => ?_, ?_⟩
        · rw [List.map_append] at hws
          obtain ⟨us', vs', rfl, hus, hvs'⟩ := List.map_eq_append_iff.1 hws
          have hsee : s.Agree rest (vs' ++ u :: rest'') := by
            rw [hvs]
            refine .of_symbol hvs'.symm hu.symm (hs.imp_right fun hfar hnil hp => ?_)
            simpa [hp, hfar.1] using hr.progress hnil
          rw [List.append_assoc]
          exact .bind (h.runs us' _ hus hsee) (hr.runs vs' u rest'' hvs' hu)
        · obtain ⟨rfl, -⟩ := List.append_eq_nil_iff.1 hnil
          exact hD a h.derives _
        · exact hr.explains.imp us fun v hc => by
            rw [List.append_assoc]
            exact hc.seq_append h.derives
      exact .refuses (by rw [hts, hvs, List.append_assoc]) hr'

/-- One action after another, where the first one consumes something and does not
    look behind a parenthesis. -/
theorem bind_first (hstream : Stream ts) (hx : Meets .near first x D ts)
    (hk : ∀ us a rest, ts = us ++ rest → Stream rest → D us a →
      Meets sight noKind (k a) (E a) rest)
    (hE : ∀ a, Completable (E a) []) (hD : ∀ a, ¬ D [] a) :
    Meets sight first (x >>= k) (Seq D E) ts :=
  bind_of hstream hx hk hE (fun a ha => absurd ha (hD a)) (.inl rfl)

/-- One action after another, where the first one does not look behind a
    parenthesis. -/
theorem bind (hstream : Stream ts) (hx : Meets .near noKind x D ts)
    (hk : ∀ us a rest, ts = us ++ rest → Stream rest → D us a →
      Meets sight noKind (k a) (E a) rest)
    (hE : ∀ a, Completable (E a) []) : Meets sight noKind (x >>= k) (Seq D E) ts :=
  bind_of hstream hx hk hE (fun _ _ _ => rfl) (.inl rfl)

/-- Making a tree of the result. -/
theorem map (f : α → β) (h : Meets sight first x D ts) :
    Meets sight first (x >>= fun a => Pure.pure (f a)) (fun us b => ∃ a, D us a ∧ b = f a) ts := by
  cases h with
  | accepts hts hrest h =>
    exact .accepts hts hrest ⟨⟨_, h.derives, rfl⟩,
      fun us rest' hus hag => .bind (h.runs us rest' hus hag) (.pure _)⟩
  | refuses hts h =>
    refine .refuses hts ⟨fun us u rest hus hu => .bind_error (h.runs us u rest hus hu),
      h.progress, h.explains.imp [] fun s hc => ?_⟩
    obtain ⟨us, a, hus, hd⟩ := hc
    exact ⟨us, f a, hus, a, hd, rfl⟩

/-- Making a tree of two results. -/
theorem map₂ {γ : Type} {y : Parse β} {G : List Token → β → Prop} (f : α → β → γ)
    (hstream : Stream ts) (hx : Meets .near noKind x D ts)
    (hy : ∀ us rest, ts = us ++ rest → Stream rest → Meets sight noKind y G rest)
    (hG : Completable G []) :
    Meets sight noKind (x >>= fun a => y >>= fun b => Pure.pure (f a b))
      (fun ts c => ∃ us vs a b, ts = us ++ vs ∧ D us a ∧ G vs b ∧ c = f a b) ts := by
  refine .mono ?_ (bind hstream hx (fun us a rest hts hrest _ => (hy us rest hts hrest).map (f a))
    fun a => ?_)
  · rintro _ _ ⟨us, vs, a, rfl, ha, b, hb, rfl⟩
    exact ⟨us, vs, a, b, rfl, ha, hb, rfl⟩
  · obtain ⟨us, b, hus, hb⟩ := hG
    exact ⟨us, f a b, hus, b, hb, rfl⟩

/-! ## Tokens -/

/-- Consuming a token whose text is of no account, and going on like `x`. -/
theorem consume {t : Token} {rest : List Token} {x act : Parse β} {F : List Token → β → Prop}
    (hrest : rest ≠ [])
    (hact : ∀ u us o vs, u.kind = t.kind → us ≠ [] → Runs x us o vs → Runs act (u :: us) o vs)
    (h : Meets sight first x F rest) : Meets sight first' act (After t.kind F) (t :: rest) := by
  cases h with
  | @accepts us rest' b hts hrest' h =>
    have ha : Accepts sight act (After t.kind F) (t :: us) b rest' := by
      refine ⟨⟨t, us, rfl, rfl, h.derives⟩, fun ws rest'' hws hag => ?_⟩
      obtain ⟨u, us', rfl, hu, hus⟩ := List.map_eq_cons_iff.1 hws
      have hne : us' ++ rest'' ≠ [] := by
        have hnext := nextKind_append hus.symm hag.next
        obtain ⟨v, vs, rfl⟩ := List.exists_cons_of_ne_nil hrest
        intro hnil
        rw [hnil, ← hts] at hnext
        cases hnext
      exact hact u _ _ _ (Token.symbol_eq_iff.1 hu).1 hne (h.runs us' rest'' hus hag)
    exact .accepts (by rw [hts]; rfl) hrest' ha
  | @refuses us rest' u production expected hts h =>
    have hr : Refuses first' act (After t.kind F) (t :: us) u production expected := by
      refine ⟨fun ws v rest'' hws hv => ?_, by simp, ?_⟩
      · obtain ⟨w, us', rfl, hw, hus⟩ := List.map_eq_cons_iff.1 hws
        exact hact w _ _ _ (Token.symbol_eq_iff.1 hw).1 (by simp) (h.runs us' v rest'' hus hv)
      · exact h.explains.imp [t] fun s hc => hc.after_cons rfl
    exact .refuses (by rw [hts]; rfl) hr

theorem advance_bind {t : Token} {rest : List Token} {x : Parse β} {F : List Token → β → Prop}
    (hrest : rest ≠ []) (h : Meets sight first x F rest) :
    Meets sight first' (Parse.advance >>= fun _ => x) (After t.kind F) (t :: rest) :=
  consume hrest (fun _ _ _ _ _ hne hr => .bind (.advance hne) hr) h

/-- Consuming a token whose text makes the tree. -/
theorem consume_leaf {t : Token} {rest : List Token} {act : Parse Token} (tree : String → β)
    (ht : t.Classified) (hv : t.kind.hasValue = true) (hrest : rest ≠ [])
    (hact : ∀ u us, u.kind = t.kind → us ≠ [] → Runs act (u :: us) (.ok u) us) :
    Meets sight first (act >>= fun u => Pure.pure (tree u.payload)) (Leaf t.kind tree)
      (t :: rest) := by
  obtain ⟨text, htext⟩ := ht.exists_carries rfl hv
  have ha : Leaf t.kind tree [t] (tree text) := ⟨t, text, rfl, htext, rfl⟩
  refine .accepts rfl hrest ⟨ha, fun us rest' hus hag => ?_⟩
  obtain ⟨u, us', rfl, hu, hnil⟩ := List.map_eq_cons_iff.1 hus
  obtain rfl : us' = [] := by simpa using hnil
  obtain ⟨hk, hval⟩ := Token.symbol_eq_iff.1 hu
  have hne : rest' ≠ [] := by
    obtain ⟨v, vs, rfl⟩ := List.exists_cons_of_ne_nil hrest
    rintro rfl
    cases hag.next
  have hpay : u.payload = text := by simp [Token.payload, hval, htext.2]
  rw [← hpay]
  exact .bind (hact u rest' hk hne) (.pure _)

/-- Insisting on a token that is not the next one. -/
theorem expect_refuses {t : Token} {rest : List Token} {kind : TokenKind} (production : String)
    {k : Token → Parse β} {F : List Token → β → Prop} (hkind : kind.isMarker = false)
    (ht : t.kind ≠ kind)
    (hs : ∀ s : Token, s.Classified → s.kind = kind → Completable F [s]) :
    Meets sight (· == kind) (expect kind production >>= k) F (t :: rest) := by
  have hr : Refuses (· == kind) (expect kind production >>= k) F [] t production (.token kind) :=
    { runs := fun us u rest' hus hu => by
        obtain rfl : us = [] := by simpa using hus
        have hk : u.kind ≠ kind := by rwa [(Token.symbol_eq_iff.1 hu).1]
        exact .bind_error (.expect_error production hk)
      progress := fun _ => by simpa using ht
      explains := ⟨hkind, false, by simp, by simpa [Expected.admits] using ht,
        fun s hc hadm => hs s hc (by simpa [Expected.admits] using hadm)⟩ }
  exact .refuses (List.nil_append _).symm hr

/-- Insisting on a token whose text is of no account. -/
theorem expect_bind {kind : TokenKind} (production : String) {x : Parse β}
    {F : List Token → β → Prop} (hstream : Stream ts) (hkind : kind.isMarker = false)
    (hF : Completable F [])
    (h : ∀ t rest, ts = t :: rest → Stream rest → Meets sight noKind x F rest) :
    Meets sight (· == kind) (expect kind production >>= fun _ => x) (After kind F) ts := by
  obtain ⟨t, rest, rfl⟩ := List.exists_cons_of_ne_nil hstream.ne_nil
  by_cases ht : t.kind = kind
  · subst ht
    obtain ⟨-, hrest⟩ := hstream.tail (TokenKind.isEnd_of_isMarker hkind)
    exact consume hrest.ne_nil (fun _ _ _ _ hk hne hr => .bind (.expect production hk hne) hr)
      (h t rest rfl hrest)
  · exact expect_refuses production hkind ht fun s _ hk => hF.after_cons hk

/-! ## Branches -/

/-- Branching on the kind of the next token. -/
theorem peek_bind {t : Token} {rest : List Token} {k : Token → Parse α}
    (hk : ∀ u, u.kind = t.kind → k u = x) (hfirst : first' t.kind = true → first t.kind = true)
    (h : Meets sight first x D (t :: rest)) : Meets sight first' (peek >>= k) D (t :: rest) :=
  h.of_next (fun u _ _ _ hu hr => .peek_bind (by rwa [hk u hu])) hfirst

/-- Branching to the consumption of a token whose text makes the tree. -/
theorem peek_leaf {t : Token} {rest : List Token} {k : Token → Parse β} (tree : String → β)
    (h : Stream (t :: rest)) (hv : t.kind.hasValue = true)
    (hk : ∀ u, u.kind = t.kind → k u = advance >>= fun v => Pure.pure (tree v.payload)) :
    Meets sight first (peek >>= k) (Leaf t.kind tree) (t :: rest) := by
  obtain ⟨ht, hrest⟩ := h.tail (TokenKind.isEnd_of_hasValue hv)
  exact .peek_bind hk id (.consume_leaf tree ht hv hrest.ne_nil fun _ _ _ hne => .advance hne)

theorem check_true {t : Token} {rest : List Token} {kind : TokenKind} {y : Parse α}
    (ht : t.kind = kind) (hfirst : first' t.kind = true → first t.kind = true)
    (h : Meets sight first x D (t :: rest)) :
    Meets sight first' (check kind >>= fun b => if b = true then x else y) D (t :: rest) :=
  h.of_next (fun _ _ _ _ hu hr => .check_true (hu.trans ht) hr) hfirst

theorem check_false {t : Token} {rest : List Token} {kind : TokenKind} {y : Parse α}
    (ht : t.kind ≠ kind) (hfirst : first' t.kind = true → first t.kind = true)
    (h : Meets sight first y D (t :: rest)) :
    Meets sight first' (check kind >>= fun b => if b = true then x else y) D (t :: rest) :=
  h.of_next (fun _ _ _ _ hu hr => .check_false (by rwa [hu]) hr) hfirst

end Meets

end Promises

end LogoSyntax

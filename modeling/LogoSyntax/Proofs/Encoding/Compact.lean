-- SUMMARY: A JSON value can be read off its compact form.
import LogoSyntax.Json
import LogoSyntax.Proofs.Text.Quoted

/-!
# Reading compact JSON

The first character of a written value tells what kind of value it is (`formOf?_head`).
Brackets and braces tell where a list or an object ends, since they begin no value and no
key, and the closing quote tells where a text ends, since it is escaped inside. A number
ends in front of the first character that is no digit. So a value is told from what stands
behind it (`compactBefore_inj`), and its compact form has no other reading
(`compact_injective`).
-/

namespace LogoSyntax.Json

open Text

/-! ## Texts -/

/-- Reads the first character of what stands between the quotes of a JSON string. -/
def readEscaped : List Char → Option (Char × List Char)
  | '\\' :: 'u' :: _ :: _ :: high :: low :: rest =>
    some (Char.ofNat (16 * hexValue high + hexValue low), rest)
  | '\\' :: 'n' :: rest => some ('\n', rest)
  | '\\' :: 'r' :: rest => some ('\r', rest)
  | '\\' :: 't' :: rest => some ('\t', rest)
  | '\\' :: 'b' :: rest => some ('\x08', rest)
  | '\\' :: 'f' :: rest => some ('\x0c', rest)
  | '\\' :: c :: rest => some (c, rest)
  | c :: rest => some (c, rest)
  | [] => none

/-- A character is read back from the way it stands in a string, and none stands there like
    the closing quote. -/
theorem legible_escapedChar : Legible readEscaped '"' escapedChar where
  read_write c rest := by
    fun_cases escapedChar c with
    | case1 | case2 | case3 | case4 | case5 | case6 | case7 =>
      subst ‹c = _›
      rfl
    | case8 _ _ _ _ _ _ _ hc =>
      have hhigh := (hexDigit_spec (c.toNat / 16) (by omega)).1
      have hlow := (hexDigit_spec (c.toNat % 16) (Nat.mod_lt _ (by decide))).1
      simp only [List.cons_append, List.nil_append, readEscaped, hhigh, hlow, Nat.div_add_mod,
        Char.ofNat_toNat]
    | case9 _ hbackslash =>
      rw [List.singleton_append]
      unfold readEscaped
      split <;> simp_all
  ne_close c rest rest' := by
    fun_cases escapedChar c with
    | case1 | case2 | case3 | case4 | case5 | case6 | case7 | case8 => simp
    | case9 hquote => simp [hquote]

theorem writeText_inj {s t : String} {rest rest' : List Char}
    (h : writeText s rest = writeText t rest') : s = t ∧ rest = rest' := by
  have hbody : s.toList.flatMap escapedChar ++ '"' :: rest =
      t.toList.flatMap escapedChar ++ '"' :: rest' := by
    simpa [writeText] using h
  obtain ⟨htext, hrest⟩ := legible_escapedChar.append_inj legible_escapedChar hbody
  exact ⟨String.toList_injective htext, hrest⟩

/-! ## Kinds of values -/

/-- A kind of value. -/
inductive Form where
  | null | bool | number | text | list | object
deriving DecidableEq, Repr

/-- The kind of a value. -/
def form : Json → Form
  | null => .null
  | bool _ => .bool
  | number _ => .number
  | text _ => .text
  | list _ => .list
  | object _ => .object

/-- The kind of the values that a character begins. -/
def formOf? (c : Char) : Option Form :=
  if c.isDigit then some .number
  else match c with
    | 'n' => some .null
    | 't' | 'f' => some .bool
    | '"' => some .text
    | '[' => some .list
    | '\x7b' => some .object
    | _ => none

/-- The first character of a written value tells its kind. -/
theorem formOf?_head (v : Json) (rest : List Char) :
    (v.compactBefore rest).head?.bind formOf? = some v.form := by
  cases v with
  | null => rfl
  | bool b => cases b <;> rfl
  | number n =>
    obtain ⟨c, cs, hdigits⟩ : ∃ c cs, (Nat.repr n).toList = c :: cs :=
      List.exists_cons_of_ne_nil (by simp)
    have hc : c.isDigit = true := isDigit_of_mem_repr (hdigits ▸ List.mem_cons_self)
    simp [compactBefore, writeNumber, hdigits, formOf?, hc, form, -Nat.toList_repr]
  | text s => rfl
  | list vs => rfl
  | object fs => rfl

theorem compactBefore_ne_cons {c : Char} (hc : formOf? c = none) (v : Json)
    (more rest : List Char) : v.compactBefore more ≠ c :: rest := by
  intro h
  have hform := v.formOf?_head more
  simp [h, hc] at hform

/-! ## Values -/

/-- No digit follows that a number in front of the text would take along. -/
def EndsNumber (rest : List Char) : Prop :=
  ∀ c ∈ rest.head?, c.isDigit = false

theorem endsNumber_cons {c : Char} (h : c.isDigit = false) (rest : List Char) :
    EndsNumber (c :: rest) := by
  simpa [EndsNumber] using h

theorem endsNumber_elements (vs : List Json) (rest : List Char) :
    EndsNumber (compactElements false vs (']' :: rest)) := by
  cases vs <;> exact endsNumber_cons rfl _

theorem endsNumber_fields (fs : List (String × Json)) (rest : List Char) :
    EndsNumber (compactFields false fs ('\x7d' :: rest)) := by
  rcases fs with _ | ⟨⟨key, v⟩, fs⟩ <;> exact endsNumber_cons rfl _

/-- The closing bracket of a list is no element, and no comma in front of one. -/
theorem compactElements_cons_ne (first : Bool) (v : Json) (vs : List Json)
    (more rest : List Char) : compactElements first (v :: vs) more ≠ ']' :: rest := by
  cases first with
  | true => exact compactBefore_ne_cons rfl v _ rest
  | false => exact fun h => by simp [compactElements] at h

/-- The closing brace of an object is no field, and no comma in front of one. -/
theorem compactFields_cons_ne (first : Bool) (field : String × Json)
    (fs : List (String × Json)) (more rest : List Char) :
    compactFields first (field :: fs) more ≠ '\x7d' :: rest := by
  cases first <;> exact fun h => by simp [compactFields, writeText] at h

mutual

/-- A value is told from what stands behind it. -/
theorem compactBefore_inj (v w : Json) {rest rest' : List Char} (hrest : EndsNumber rest)
    (hrest' : EndsNumber rest') (h : v.compactBefore rest = w.compactBefore rest') :
    v = w ∧ rest = rest' := by
  have hform : v.form = w.form := by
    have hhead := v.formOf?_head rest
    rw [h, w.formOf?_head rest'] at hhead
    exact (Option.some.inj hhead).symm
  cases v with
  | null =>
    cases w with
    | null => exact ⟨rfl, List.append_cancel_left h⟩
    | _ => cases hform
  | bool b =>
    cases w with
    | bool c =>
      cases b <;> cases c <;> simp_all [compactBefore, writeBool]
    | _ => cases hform
  | number n =>
    cases w with
    | number m =>
      obtain ⟨rfl, hbehind⟩ := repr_append_inj hrest hrest' h
      exact ⟨rfl, hbehind⟩
    | _ => cases hform
  | text s =>
    cases w with
    | text t =>
      obtain ⟨rfl, hbehind⟩ := writeText_inj h
      exact ⟨rfl, hbehind⟩
    | _ => cases hform
  | list vs =>
    cases w with
    | list ws =>
      obtain ⟨rfl, hbehind⟩ := compactElements_inj true vs ws (List.cons.inj h).2
      exact ⟨rfl, hbehind⟩
    | _ => cases hform
  | object fs =>
    cases w with
    | object gs =>
      obtain ⟨rfl, hbehind⟩ := compactFields_inj true fs gs (List.cons.inj h).2
      exact ⟨rfl, hbehind⟩
    | _ => cases hform

theorem compactElements_inj (first : Bool) (vs ws : List Json) {rest rest' : List Char}
    (h : compactElements first vs (']' :: rest) = compactElements first ws (']' :: rest')) :
    vs = ws ∧ rest = rest' := by
  cases vs with
  | nil =>
    cases ws with
    | nil => exact ⟨rfl, (List.cons.inj h).2⟩
    | cons w ws => exact absurd h.symm (compactElements_cons_ne first w ws _ rest)
  | cons v vs =>
    cases ws with
    | nil => exact absurd h (compactElements_cons_ne first v vs _ rest')
    | cons w ws =>
      obtain ⟨rfl, hlater⟩ := compactBefore_inj v w (endsNumber_elements vs rest)
        (endsNumber_elements ws rest') (List.append_cancel_left h)
      obtain ⟨rfl, hbehind⟩ := compactElements_inj false vs ws hlater
      exact ⟨rfl, hbehind⟩

theorem compactFields_inj (first : Bool) (fs gs : List (String × Json)) {rest rest' : List Char}
    (h : compactFields first fs ('\x7d' :: rest) = compactFields first gs ('\x7d' :: rest')) :
    fs = gs ∧ rest = rest' := by
  match fs, gs with
  | [], [] => exact ⟨rfl, (List.cons.inj h).2⟩
  | [], g :: gs => exact absurd h.symm (compactFields_cons_ne first g gs _ rest)
  | f :: fs, [] => exact absurd h (compactFields_cons_ne first f fs _ rest')
  | (key, v) :: fs, (key', w) :: gs =>
    obtain ⟨rfl, hvalue⟩ := writeText_inj (List.append_cancel_left h)
    obtain ⟨rfl, hlater⟩ := compactBefore_inj v w (endsNumber_fields fs rest)
      (endsNumber_fields gs rest') (List.cons.inj hvalue).2
    obtain ⟨rfl, hbehind⟩ := compactFields_inj false fs gs hlater
    exact ⟨rfl, hbehind⟩

end

/-- Different values have different compact forms. -/
theorem compact_injective : Function.Injective compact := by
  intro v w h
  have hnil : EndsNumber [] := by simp [EndsNumber]
  exact (compactBefore_inj v w hnil hnil (String.ofList_injective h)).1

end LogoSyntax.Json

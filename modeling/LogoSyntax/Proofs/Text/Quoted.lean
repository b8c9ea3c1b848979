-- SUMMARY: A quoted text stands on one line and can be read back, whatever characters it shows as themselves.
import LogoSyntax.Proofs.Text.Boundary
import LogoSyntax.Text.Quoted

/-!
# Reading quoted texts

No character between the quotes of a text is a line break (`newline_not_mem_quotedBy`),
and the text can be read back from them. `readChar` reads one character without being
told which ones are shown as themselves: an escape begins with a backslash, no escape
begins another one, and the closing quote begins none. So a quoted text is told from
what follows it (`quotedBy_append_inj`).
-/

namespace LogoSyntax.Text

/-! ## Hexadecimal digits -/

/-- The number that a hexadecimal digit in lower case stands for. -/
def hexValue (c : Char) : Nat :=
  if c.toNat < 58 then c.toNat - 48 else c.toNat - 87

/-- The number that some hexadecimal digits stand for. -/
def ofHexDigits (cs : List Char) : Nat :=
  cs.foldl (fun n c => 16 * n + hexValue c) 0

theorem hexDigit_spec : ∀ n < 16, hexValue (hexDigit n) = n ∧ hexDigit n ≠ '\x7d' ∧
    hexDigit n ≠ '\n' := by
  decide

theorem ofHexDigits_hexDigits (n : Nat) : ofHexDigits (hexDigits n) = n := by
  fun_induction hexDigits n with
  | case1 n hn => simp [ofHexDigits, (hexDigit_spec n hn).1]
  | case2 n hn ih =>
    have hlast := (hexDigit_spec (n % 16) (Nat.mod_lt n (by decide))).1
    rw [ofHexDigits, List.foldl_append, ← ofHexDigits, ih, List.foldl_cons, List.foldl_nil, hlast]
    exact Nat.div_add_mod n 16

theorem ne_of_mem_hexDigits {n : Nat} {c : Char} (h : c ∈ hexDigits n) :
    c ≠ '\x7d' ∧ c ≠ '\n' := by
  fun_induction hexDigits n with
  | case1 n hn =>
    obtain rfl := List.mem_singleton.1 h
    exact (hexDigit_spec n hn).2
  | case2 n hn ih =>
    rcases List.mem_append.1 h with h | h
    · exact ih h
    · obtain rfl := List.mem_singleton.1 h
      exact (hexDigit_spec (n % 16) (Nat.mod_lt n (by decide))).2

/-! ## Characters -/

/-- Reads the first character of what stands between quotes, be it shown as itself or
    escaped. -/
def readChar : List Char → Option (Char × List Char)
  | '\\' :: 'u' :: '\x7b' :: rest =>
    some (Char.ofNat (ofHexDigits (rest.takeWhile (· ≠ '\x7d'))),
      (rest.dropWhile (· ≠ '\x7d')).tail)
  | '\\' :: '0' :: rest => some ('\x00', rest)
  | '\\' :: 't' :: rest => some ('\t', rest)
  | '\\' :: 'r' :: rest => some ('\r', rest)
  | '\\' :: 'n' :: rest => some ('\n', rest)
  | '\\' :: c :: rest => some (c, rest)
  | c :: rest => some (c, rest)
  | [] => none

theorem readChar_codePointEscape (c : Char) (rest : List Char) :
    readChar (codePointEscape c ++ rest) = some (c, rest) := by
  have hdigits : ∀ d ∈ hexDigits c.toNat, decide (d ≠ '\x7d') = true := by
    intro d hd
    simpa using (ne_of_mem_hexDigits hd).1
  have hescape : codePointEscape c ++ rest =
      '\\' :: 'u' :: '\x7b' :: (hexDigits c.toNat ++ '\x7d' :: rest) := by
    simp [codePointEscape]
  rw [hescape, readChar, List.takeWhile_append_of_pos hdigits, List.dropWhile_append_of_pos hdigits]
  simp [ofHexDigits_hexDigits]

theorem readChar_of_ne {c : Char} (h : c ≠ '\\') (rest : List Char) :
    readChar (c :: rest) = some (c, rest) := by
  unfold readChar
  split <;> simp_all

/-- A character is read back from its quoted form, whatever stands behind it. -/
theorem readChar_quotedChar (visible : Char → Bool) (c : Char) (rest : List Char) :
    readChar (quotedChar visible c ++ rest) = some (c, rest) := by
  fun_cases quotedChar visible c with
  | case1 | case2 | case3 | case4 | case5 | case6 =>
    subst ‹c = _›
    rfl
  | case7 _ _ _ _ _ hbackslash => exact readChar_of_ne hbackslash rest
  | case8 => exact readChar_codePointEscape c rest

/-- The closing quote begins the quoted form of no character. -/
theorem quotedChar_ne_quote (visible : Char → Bool) (c : Char) (rest rest' : List Char) :
    quotedChar visible c ++ rest ≠ '"' :: rest' := by
  fun_cases quotedChar visible c with
  | case1 | case2 | case3 | case4 | case5 | case6 => simp
  | case7 _ _ _ _ hquote => simp [hquote]
  | case8 => simp [codePointEscape]

theorem legible_quotedChar (visible : Char → Bool) :
    Legible readChar '"' (quotedChar visible) :=
  ⟨readChar_quotedChar visible, quotedChar_ne_quote visible⟩

theorem newline_not_mem_quotedChar (visible : Char → Bool) (c : Char) :
    '\n' ∉ quotedChar visible c := by
  fun_cases quotedChar visible c with
  | case1 | case2 | case3 | case4 | case5 | case6 => simp
  | case7 _ _ _ hnewline => simpa using Ne.symm hnewline
  | case8 =>
    have hdigits : '\n' ∉ hexDigits c.toNat := fun h => (ne_of_mem_hexDigits h).2 rfl
    simp [codePointEscape, hdigits]

/-! ## Texts -/

theorem newline_not_mem_quotedBy (visible : Char → Bool) (cs : List Char) :
    '\n' ∉ quotedBy visible cs := by
  simp [quotedBy, newline_not_mem_quotedChar]

/-- A quoted text tells its characters and where it ends, and not which of them it shows
    as themselves. -/
theorem quotedBy_append_inj {visible visible' : Char → Bool} {cs ds rest rest' : List Char}
    (h : quotedBy visible cs ++ rest = quotedBy visible' ds ++ rest') : cs = ds ∧ rest = rest' := by
  have hbody : cs.flatMap (quotedChar visible) ++ '"' :: rest =
      ds.flatMap (quotedChar visible') ++ '"' :: rest' := by
    simpa [quotedBy] using h
  exact (legible_quotedChar visible).append_inj (legible_quotedChar visible') hbody

end LogoSyntax.Text

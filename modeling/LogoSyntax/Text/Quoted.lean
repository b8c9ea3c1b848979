-- SUMMARY: Quoted texts: double quotes, with escapes for the characters that are not shown as themselves.
import LogoSyntax.Text.Visible

/-!
# Quoted text

A quoted text stands between double quotes. The quote, the backslash, the tab,
the two line break characters and the null character have escapes of two
characters. Any other character that is not shown as itself is written as its
code point in lower case hexadecimal digits between braces.

Which characters are shown as themselves is a parameter, so that facts about
quoting do not depend on a table of characters.
-/

namespace LogoSyntax.Text

/-- A digit below sixteen in lower case. -/
def hexDigit (n : Nat) : Char :=
  if n < 10 then Char.ofNat (48 + n) else Char.ofNat (87 + n)

/-- The hexadecimal digits of a number, in lower case and without leading zeros. -/
def hexDigits (n : Nat) : List Char :=
  if n < 16 then [hexDigit n] else hexDigits (n / 16) ++ [hexDigit (n % 16)]
termination_by n

/-- A character by its code point. -/
def codePointEscape (c : Char) : List Char :=
  ['\\', 'u', '\x7b'] ++ hexDigits c.toNat ++ ['\x7d']

/-- A character as it stands between the quotes. -/
def quotedChar (visible : Char → Bool) (c : Char) : List Char :=
  if c = '\x00' then ['\\', '0']
  else if c = '\t' then ['\\', 't']
  else if c = '\r' then ['\\', 'r']
  else if c = '\n' then ['\\', 'n']
  else if c = '"' then ['\\', '"']
  else if c = '\\' then ['\\', '\\']
  else if visible c then [c]
  else codePointEscape c

/-- A text between double quotes. -/
def quotedBy (visible : Char → Bool) (cs : List Char) : List Char :=
  '"' :: cs.flatMap (quotedChar visible) ++ ['"']

/-- A text between double quotes, with escapes for the characters that are not visible. -/
def quoted (text : String) : String :=
  String.ofList (quotedBy isVisible text.toList)

end LogoSyntax.Text

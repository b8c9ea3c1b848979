-- SUMMARY: The token table: one line for each token.
import LogoSyntax.Text.Quoted
import LogoSyntax.Token

/-!
# Token table

Each token takes one line: a mark that tells unmatched tokens, the position,
the name of the kind, the raw text in quotes and the value. Columns are padded
with spaces, and no line ends in a space.
-/

namespace LogoSyntax

namespace Token

/-- The character that tells an unmatched token from a matched one. -/
def mark (t : Token) : Char :=
  if t.matched then ' ' else '!'

/-- A token's line with its padding, without the line break. -/
def paddedRowBy (visible : Char → Bool) (t : Token) : List Char :=
  t.mark :: (Nat.repr t.line).toList.leftpad 4 ' '
    ++ ':' :: (Nat.repr t.col).toList.rightpad 4 ' '
    ++ ' ' :: t.kind.name.toList.rightpad 18 ' '
    ++ (if t.raw.isEmpty then [] else ' ' :: Text.quotedBy visible t.raw.toList)
    ++ (match t.value with
        | none => []
        | some value => [' ', '=', ' '] ++ value.toList)

/-- Appends a token's line to what was written before. The text is held in
    reverse, so that the spaces at its end come first and are dropped before
    the line break. -/
def appendRowBy (visible : Char → Bool) (written : List Char) (t : Token) : List Char :=
  '\n' :: ((t.paddedRowBy visible).reverse ++ written).dropWhile (· == ' ')

/-- The lines of some tokens. -/
def tableBy (visible : Char → Bool) (ts : List Token) : List Char :=
  (ts.foldl (appendRowBy visible) []).reverse

/-- The table of some tokens. -/
def renderTable (ts : List Token) : String :=
  String.ofList (tableBy Text.isVisible ts)

end Token

end LogoSyntax

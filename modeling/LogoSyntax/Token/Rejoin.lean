-- SUMMARY: Source text rebuilt from tokens.
import LogoSyntax.Token

/-!
# Rejoined source

The raw texts of a token list are joined by single spaces, and every end of a
line becomes a line break. Tokens without a raw text leave no trace.
-/

namespace LogoSyntax.Token

/-- The rejoined text of some tokens; `fresh` says that nothing was written on
    the current line yet. -/
def rejoinFrom (fresh : Bool) : List Token → List Char
  | [] => []
  | t :: ts =>
    if t.kind = .endOfLine then '\n' :: rejoinFrom true ts
    else if t.raw.isEmpty then rejoinFrom fresh ts
    else (if fresh then [] else [' ']) ++ t.raw.toList ++ rejoinFrom false ts

/-- The raw texts joined by single spaces, with the line breaks restored. -/
def rejoin (ts : List Token) : String :=
  String.ofList (rejoinFrom true ts)

end LogoSyntax.Token

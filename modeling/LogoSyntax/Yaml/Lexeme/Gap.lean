-- SUMMARY: The space, comments and line breaks between lexemes.
import LogoSyntax.Yaml.Lexeme

/-!
# Gaps

Between two lexemes there may be spaces, comments and line breaks. A tab may
stand there too, except in block context where a key may begin, since it would
be taken for indentation. A byte order mark may stand at the beginning of a line.
In block context a line break allows a key to begin.
-/

namespace LogoSyntax.Yaml

/-- Where a gap ends, and whether a key may begin there. -/
structure Gap where
  input : Input
  keyAllowed : Bool
deriving DecidableEq, Repr

/-- Skips a gap. `inFlow` says whether brackets or braces are open, `keyAllowed`
    whether a key may begin, and `inComment` whether a comment was begun. -/
def skipGapFrom (inFlow keyAllowed inComment : Bool) (mark : Mark) : List Char → Gap
  | [] => ⟨⟨[], mark⟩, keyAllowed⟩
  | '\r' :: '\n' :: cs => skipGapFrom inFlow (keyAllowed || !inFlow) false (mark.down 2) cs
  | c :: cs =>
    if isBreak c then skipGapFrom inFlow (keyAllowed || !inFlow) false (mark.down c.utf8Size) cs
    else if inComment then skipGapFrom inFlow keyAllowed true (mark.past c) cs
    else if c = ' ' || (c = '\t' && (inFlow || !keyAllowed)) || (c = '\uFEFF' && mark.column = 0)
    then skipGapFrom inFlow keyAllowed false (mark.past c) cs
    else if c = '#' then skipGapFrom inFlow keyAllowed true (mark.past c) cs
    else ⟨⟨c :: cs, mark⟩, keyAllowed⟩

/-- Skips the gap in front of the next lexeme. -/
def Input.skipGap (i : Input) (inFlow keyAllowed : Bool) : Gap :=
  skipGapFrom inFlow keyAllowed false i.mark i.chars

end LogoSyntax.Yaml

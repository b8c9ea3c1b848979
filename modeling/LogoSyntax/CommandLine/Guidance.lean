-- SUMMARY: What the program prints about its own use.
import LogoSyntax.CommandLine.Outcome

/-!
# Guidance

The help, the version and what is said about a misuse. Help and version are
printed as the output of a run that succeeds. The texts of the help and those on
misuses come with the reader of command lines and are no part of this library.
-/

namespace LogoSyntax.CommandLine

/-- The version of the program. -/
def versionText : String :=
  "lingo 0.1.0\n"

/-- The texts on the use of the program. -/
structure Guidance where
  help : Scope → String := fun _ => ""
  misuse : Misuse → String := fun _ => ""

/-- The outcome of a command line that asks for no command. -/
def Stop.outcome (guidance : Guidance) : Stop → Outcome
  | help scope => .ofOutput (guidance.help scope)
  | version => .ofOutput versionText
  | misuse m => .ofProblem .misuse (.ofFilter .off) (guidance.misuse m)

end LogoSyntax.CommandLine

-- SUMMARY: What a command comes to: the texts it prints, its log and its exit code.
import LogoSyntax.CommandLine.Invocation
import LogoSyntax.Config.Load
import LogoSyntax.Encoding
import LogoSyntax.Grammar.Block
import LogoSyntax.Token.Rejoin
import LogoSyntax.Token.Table
import LogoSyntax.Yaml.Print

/-!
# Outcomes

The log is set to its level before anything is emitted. From then on each record
is written or not as soon as it is emitted, be it in the midst of a parse. The
records that were written stand on the standard error stream, in front of the
line that says why a run failed.
-/

namespace LogoSyntax.CommandLine

/-- How a run of the program ended. -/
inductive ExitCode where
  | success | failure | misuse
deriving DecidableEq, Repr

/-- The number of an exit code. -/
def ExitCode.number : ExitCode → Nat
  | success => 0
  | failure => 1
  | misuse => 2

/-- What a run of the program came to. -/
structure Outcome where
  code : ExitCode
  output : String
  /-- The log as it was written. It is off in a run that fails before it sets the level. -/
  log : Log.Writer
  /-- The line that says why the run failed. -/
  problem : Option String
deriving DecidableEq, Repr

namespace Outcome

/-- The outcome of a run that printed a text and logged nothing. -/
def ofOutput (output : String) : Outcome :=
  ⟨.success, output, .ofFilter .off, none⟩

/-- The outcome of a run that failed, with its log. -/
def ofProblem (code : ExitCode) (log : Log.Writer) (problem : String) : Outcome :=
  ⟨code, "", log, some problem⟩

/-- The lines for the standard error stream. -/
def messages (o : Outcome) : List String :=
  o.log.records.map (·.render) ++ o.problem.toList

/-- The text for the standard error stream. -/
def errors (o : Outcome) : String :=
  String.join (o.messages.map (· ++ "\n"))

end Outcome

/-! ## Commands -/

/-- The tokens as they are printed. -/
def TokenView.print : TokenView → List Token → String
  | table, tokens => Token.renderTable tokens
  | yaml, tokens => Yaml.printSorted (Token.listToJson tokens)
  | rejoined, tokens => Token.rejoin tokens ++ "\n"

/-- The program as it is printed. -/
def printProgram (p : Program) : OutputFormat → String
  | .debug => p.toTerm.indented ++ "\n"
  | .yaml => Yaml.printSorted p.toJson
  | .json => p.toJson.pretty ++ "\n"

/-- The line that says why there is no program. -/
def haltMessage : Halt → String
  | .syntaxError e => "syntax error: " ++ e.message
  | .outOfFuel => "error: out of fuel"

/-- What a command comes to on a source, under a configured format and with a log. -/
def Command.run (command : Command) (format : OutputFormat) (log : Log.Writer)
    (source : String) : Outcome :=
  let cursor := Cursor.ofSource source
  match command with
  | tokens view =>
    let clean := cursor.final.token.kind = .noMore
    { code := if clean then .success else .failure
      output := view.print cursor.tokens
      log := cursor.logTo log
      problem := none }
  | parse chosen =>
    let (result, reader) := ((Reader.ofCursor cursor).withLog log).parse
    match result with
    | .ok p =>
      { code := .success
        output := printProgram p (chosen.getD format)
        log := reader.log
        problem := none }
    | .error halt => .ofProblem .failure reader.log (haltMessage halt)

/-! ## Invocations -/

namespace Invocation

/-- Where the source of an invocation is said to be. -/
def sourceName (i : Invocation) : String :=
  i.file.getD "stdin"

/-- The record of the path that the configuration is looked for at. -/
def configRecord (path : String) : Log.Record :=
  ⟨.info, .program, "config: " ++ path⟩

/-- What an invocation comes to once it is configured. -/
def runConfigured (i : Invocation) (format : OutputFormat) (log : Log.Writer)
    (source : Except ReadError String) : Outcome :=
  match source with
  | .ok source => i.command.run format log source
  | .error e =>
    .ofProblem .failure log ("error: failed to read " ++ i.sourceName ++ ": " ++ e.message)

/-- What an invocation comes to, given the configuration at its path and the source. -/
def run (i : Invocation) (path : String) (config : Except ConfigError Config)
    (source : Except ReadError String) : Outcome :=
  match config with
  | .error e => .ofProblem .failure (.ofFilter .off) ("error: " ++ e.report)
  | .ok config =>
    match config.levelFilter with
    | .error e => .ofProblem .failure (.ofFilter .off) ("error: " ++ e.report)
    | .ok filter =>
      let log := (Log.Writer.ofFilter (filter.raise i.verbosity)).write (configRecord path)
      i.runConfigured config.format log source

end Invocation

end LogoSyntax.CommandLine

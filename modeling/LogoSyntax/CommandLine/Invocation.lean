-- SUMMARY: Invocations of the program, and how the words of a command line are read.
import LogoSyntax.Config

/-!
# Invocations

A command line names a command, and switches stand before and behind it. What
stands behind the command replaces what stands before it. Words are read from
left to right, and the first one that ends the reading decides: a request for
help or for the version, or a misuse. Behind a double dash every word is an
operand.

A long name follows two dashes, and its value an equals sign or a space. Letters
follow one dash; the value of the last of them may follow at once.
-/

namespace LogoSyntax.CommandLine

/-- How the tokens of a source are printed. -/
inductive TokenView where
  | table | yaml | rejoined
deriving DecidableEq, Repr

/-- What the program is asked to do with a source. -/
inductive Command where
  | tokens (view : TokenView)
  /-- The format is that of the configuration unless it is given. -/
  | parse (format : Option OutputFormat)
deriving DecidableEq, Repr

/-- A command line that asks for a command. -/
structure Invocation where
  command : Command
  /-- The file with the source, unless it is read from the standard input. -/
  file : Option String
  /-- The configuration file, unless it is the default one. -/
  config : Option String
  /-- The number of steps by which the level of the log is raised. -/
  verbosity : Nat
deriving DecidableEq, Repr

/-! ## Switches -/

/-- A part of the command line: what stands before the command, or behind one. -/
inductive Scope where
  | program | tokens | parse
deriving DecidableEq, Repr

/-- A switch without a value. -/
inductive Flag where
  | verbose | yaml | rejoin | help | version
deriving DecidableEq, Repr

/-- A switch with a value. -/
inductive Setting where
  | config | format
deriving DecidableEq, Repr

/-- A switch of either kind. -/
inductive Switch where
  | flag (f : Flag)
  | setting (s : Setting)
deriving DecidableEq, Repr

namespace Switch

/-- The long name of a switch. -/
def name : Switch → String
  | flag .verbose => "verbose"
  | flag .yaml => "yaml"
  | flag .rejoin => "rejoin"
  | flag .help => "help"
  | flag .version => "version"
  | setting .config => "config"
  | setting .format => "format"

/-- The letter of a switch, if it has one. -/
def letter? : Switch → Option Char
  | flag .verbose => some 'v'
  | flag .help => some 'h'
  | flag .version => some 'V'
  | setting .format => some 'f'
  | flag .yaml | flag .rejoin | setting .config => none

end Switch

/-- The switches that are known in a part of the command line. -/
def Scope.switches : Scope → List Switch
  | program => [.setting .config, .flag .verbose, .flag .help, .flag .version]
  | tokens =>
    [.flag .yaml, .flag .rejoin, .setting .config, .flag .verbose, .flag .help]
  | parse => [.setting .format, .setting .config, .flag .verbose, .flag .help]

/-- The switch with this long name. -/
def Scope.named? (scope : Scope) (name : String) : Option Switch :=
  scope.switches.find? (·.name == name)

/-- The switch with this letter. -/
def Scope.lettered? (scope : Scope) (letter : Char) : Option Switch :=
  scope.switches.find? (·.letter? == some letter)

/-! ## Reading words -/

/-- What is wrong with a command line. -/
inductive Misuse where
  | missingCommand
  | unknownCommand (name : String)
  | unexpectedWord (word : String)
  | unexpectedValue (switch : Switch) (value : String)
  | missingValue (switch : Switch)
  | invalidValue (value : String)
  | repeated (switch : Switch)
  | conflict (first second : Switch)
deriving DecidableEq, Repr

/-- Why a command line asks for no command. -/
inductive Stop where
  | help (scope : Scope)
  | version
  | misuse (m : Misuse)
deriving DecidableEq, Repr

/-- What the words of one part of the command line give. -/
structure Given where
  verbosity : Nat := 0
  yaml : Bool := false
  rejoin : Bool := false
  config : Option String := none
  format : Option OutputFormat := none
  file : Option String := none
deriving DecidableEq, Repr

namespace Given

/-- Takes a flag. All but the verbosity count once. -/
def takeFlag (g : Given) (scope : Scope) : Flag → Except Stop Given
  | .verbose => .ok { g with verbosity := g.verbosity + 1 }
  | .yaml =>
    if g.yaml then .error (.misuse (.repeated (.flag .yaml))) else .ok { g with yaml := true }
  | .rejoin =>
    if g.rejoin then .error (.misuse (.repeated (.flag .rejoin)))
    else .ok { g with rejoin := true }
  | .help => .error (.help scope)
  | .version => .error .version

/-- Takes the value of a setting, which counts once. -/
def takeSetting (g : Given) (value : String) : Setting → Except Stop Given
  | .config =>
    if g.config.isSome then .error (.misuse (.repeated (.setting .config)))
    else if value = "" then .error (.misuse (.invalidValue value))
    else .ok { g with config := some value }
  | .format =>
    if g.format.isSome then .error (.misuse (.repeated (.setting .format)))
    else
      match OutputFormat.ofName? value with
      | some format => .ok { g with format := some format }
      | none => .error (.misuse (.invalidValue value))

/-- Takes an operand: the file with the source, of which there is one. -/
def takeOperand (g : Given) (word : String) : Except Stop Given :=
  if g.file.isSome then .error (.misuse (.unexpectedWord word))
  else if word = "" then .error (.misuse (.invalidValue word))
  else .ok { g with file := some word }

end Given

/-- Reads a long name, which may have a value. Gives the setting whose value is
    still to come. -/
def readName (scope : Scope) (g : Given) (cs : List Char) :
    Except Stop (Given × Option Setting) := do
  let name := String.ofList (cs.takeWhile (· ≠ '='))
  match scope.named? name, cs.dropWhile (· ≠ '=') with
  | some (.flag f), [] => return (← g.takeFlag scope f, none)
  | some (.flag f), _ :: value =>
    throw (.misuse (.unexpectedValue (.flag f) (String.ofList value)))
  | some (.setting s), [] => return (g, some s)
  | some (.setting s), _ :: value => return (← g.takeSetting (String.ofList value) s, none)
  | none, _ => throw (.misuse (.unexpectedWord ("--" ++ name)))

/-- Reads letters, the last of which may have a value. Gives the setting whose
    value is still to come. -/
def readLetters (scope : Scope) (g : Given) : List Char → Except Stop (Given × Option Setting)
  | [] => .ok (g, none)
  | c :: cs =>
    match scope.lettered? c with
    | some (.flag f) => do readLetters scope (← g.takeFlag scope f) cs
    | some (.setting s) =>
      match cs with
      | [] => .ok (g, some s)
      | '=' :: value => do return (← g.takeSetting (String.ofList value) s, none)
      | value => do return (← g.takeSetting (String.ofList value) s, none)
    | none => .error (.misuse (.unexpectedWord ("-" ++ String.singleton c)))

/-- Whether a word begins with a dash and is not one. Such a word is no value. -/
def isSwitch (word : String) : Bool :=
  word.startsWith "-" && word ≠ "-"

/-- Reads the words behind a double dash. Before the command none is expected. -/
def readOperands (scope : Scope) (g : Given) : List String → Except Stop Given
  | [] => .ok g
  | word :: words =>
    if scope = .program then .error (.misuse (.unexpectedWord word))
    else do readOperands scope (← g.takeOperand word) words

/-- Reads the words of a part of the command line, `pending` being the setting
    whose value comes next. Gives the words from the command on. -/
def readWords (scope : Scope) (g : Given) (pending : Option Setting) :
    List String → Except Stop (Given × List String)
  | [] =>
    match pending with
    | some s => .error (.misuse (.missingValue (.setting s)))
    | none => .ok (g, [])
  | word :: words =>
    match pending, word.toList with
    | some s, _ =>
      if isSwitch word then .error (.misuse (.missingValue (.setting s)))
      else do readWords scope (← g.takeSetting word s) none words
    | none, ['-', '-'] => do return (← readOperands scope g words, [])
    | none, '-' :: '-' :: name => do
      let (g, pending) ← readName scope g name
      readWords scope g pending words
    | none, '-' :: c :: cs => do
      let (g, pending) ← readLetters scope g (c :: cs)
      readWords scope g pending words
    | none, _ =>
      if scope = .program then .ok (g, word :: words)
      else do readWords scope (← g.takeOperand word) none words

/-! ## Command lines -/

/-- The help that the words behind the command for it ask for. -/
def helpOn : List String → Stop
  | [] => .help .program
  | ["tokens"] => .help .tokens
  | ["parse"] => .help .parse
  | ["help"] => .help .program
  | "tokens" :: word :: _ | "parse" :: word :: _ | "help" :: word :: _ | word :: _ =>
    .misuse (.unknownCommand word)

namespace Invocation

/-- The invocation of a command, with what stands before and behind it. -/
def ofGiven (command : Command) (outer inner : Given) : Invocation :=
  { command
    file := inner.file.filter (· ≠ "-")
    config := inner.config <|> outer.config
    verbosity := if inner.verbosity = 0 then outer.verbosity else inner.verbosity }

/-- Reads a command line. -/
def ofWords (words : List String) : Except Stop Invocation := do
  let (outer, rest) ← readWords .program {} none words
  match rest with
  | [] => throw (.misuse .missingCommand)
  | command :: rest =>
    if command = "tokens" then
      let (inner, _) ← readWords .tokens {} none rest
      if inner.yaml && inner.rejoin then
        throw (.misuse (.conflict (.flag .rejoin) (.flag .yaml)))
      let view : TokenView :=
        if inner.yaml then .yaml else if inner.rejoin then .rejoined else .table
      return ofGiven (.tokens view) outer inner
    else if command = "parse" then
      let (inner, _) ← readWords .parse {} none rest
      return ofGiven (.parse inner.format) outer inner
    else if command = "help" then throw (helpOn rest)
    else throw (.misuse (.unknownCommand command))

/-- Where the configuration is, below a home directory unless a path is given. -/
def configPath (i : Invocation) (home : String) : String :=
  i.config.getD (Config.defaultPath home)

end Invocation

end LogoSyntax.CommandLine

-- SUMMARY: The configuration: how programs are printed and what is logged, and where it is found.
import LogoSyntax.FileTree
import LogoSyntax.Log
import LogoSyntax.Yaml.Document

/-!
# Configuration

A configuration says how programs are printed and names the level up to which
records are logged. The name is not looked at before it is needed, so a
configuration with an unknown level can be loaded.
-/

namespace LogoSyntax

/-- How a program is printed. -/
inductive OutputFormat where
  | debug | yaml | json
deriving DecidableEq, Repr

namespace OutputFormat

/-- All formats, in the order in which they are listed. -/
def all : List OutputFormat :=
  [debug, yaml, json]

/-- The name of a format. -/
def name : OutputFormat → String
  | debug => "debug"
  | yaml => "yaml"
  | json => "json"

/-- The format with this name. -/
def ofName? (name : String) : Option OutputFormat :=
  all.find? (·.name == name)

end OutputFormat

/-- A configuration. -/
structure Config where
  format : OutputFormat := .debug
  /-- The name of the level up to which records are logged. -/
  logLevel : String := "warn"
deriving DecidableEq, Repr

/-- Why there is no configuration to work with. -/
inductive ConfigError where
  | unreadable (path : String) (cause : ReadError)
  | invalid (path : String) (cause : Yaml.LoadError)
  | unknownLevel (name : String)
deriving DecidableEq, Repr

namespace ConfigError

/-- The error behind this one, in words. -/
def cause? : ConfigError → Option String
  | unreadable _ cause => some cause.message
  | invalid _ cause => some cause.message
  | unknownLevel _ => none

/-- The error in words. -/
def message : ConfigError → String
  | unreadable path cause => "failed to read " ++ path ++ ": " ++ cause.message
  | invalid path cause => "invalid config " ++ path ++ ": " ++ cause.message
  | unknownLevel name => "unknown log level '" ++ name ++ "'"

/-- The error in words, followed by the error behind it. -/
def report (e : ConfigError) : String :=
  e.message ++ e.cause?.elim "" (": " ++ ·)

end ConfigError

namespace Config

/-- The configuration that holds where nothing is set. -/
def standard : Config :=
  {}

/-- The filter for the log. -/
def levelFilter (c : Config) : Except ConfigError Log.Filter :=
  match Log.Filter.ofName? c.logLevel with
  | some filter => .ok filter
  | none => .error (.unknownLevel c.logLevel)

/-- Where the configuration is found below a home directory. -/
def defaultPath (home : String) : String :=
  (if home.endsWith "/" then home else home ++ "/") ++ ".lingo/config.yaml"

end Config

end LogoSyntax

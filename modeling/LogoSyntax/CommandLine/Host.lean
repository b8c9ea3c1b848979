-- SUMMARY: Where the program runs, and what a command line comes to there.
import LogoSyntax.CommandLine.Guidance

/-!
# Hosts

A host gives what the program reads: files, the standard input and the place of
the home directory. The configuration is loaded before the source is read, and
a source that cannot be read leaves the record of the configuration in the log.
-/

namespace LogoSyntax.CommandLine

/-- Where the program runs: the working directory, the bytes of the standard
    input and the home directory, and the texts on its use that come with it. -/
structure Host where
  files : FileTree
  input : ByteArray
  home : String
  guidance : Guidance := {}

/-- The source of an invocation on a host. -/
def Host.source (h : Host) (i : Invocation) : Except ReadError String :=
  match i.file with
  | some path => h.files.read path
  | none => readText h.input

/-- What a command line comes to on a host. -/
def Host.run (h : Host) (words : List String) : Outcome :=
  match Invocation.ofWords words with
  | .ok i =>
    let path := i.configPath h.home
    i.run path (Config.load h.files path) (h.source i)
  | .error stop => stop.outcome h.guidance

end LogoSyntax.CommandLine

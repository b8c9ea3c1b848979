-- SUMMARY: The program: reads files and the standard input, and prints what a command line comes to.
import LogoSyntax.CommandLine.Guidance

/-!
# The program

Reads what an invocation asks for and prints its outcome. Everything else is
decided by the invocation.
-/

namespace LogoSyntax.CommandLine

/-- The number of a system error, which some calls give negated. -/
def systemNumber (code : UInt32) : Nat :=
  min code.toNat (-code).toNat

/-- The reason that a system gives for an error. -/
def readErrorOfSystem : IO.Error → ReadError
  | .noFileOrDirectory _ _ _ => .notFound
  | .inappropriateType _ code _ =>
    if systemNumber code = 20 then .notDirectory else .isDirectory
  | .permissionDenied _ code _ => .system "Permission denied" (systemNumber code)
  | e => .system e.toString 0

/-- Reads the text of a file. -/
def readFileText (path : String) : IO (Except ReadError String) := do
  try
    return readText (← IO.FS.readBinFile path)
  catch e =>
    return .error (readErrorOfSystem e)

/-- Reads a stream to its end. -/
partial def readStream (stream : IO.FS.Stream) (read : ByteArray) : IO ByteArray := do
  let bytes ← stream.read 65536
  if bytes.isEmpty then return read else readStream stream (read ++ bytes)

/-- Loads the configuration from a file, or the default one if there is no file. -/
def loadConfig (path : String) : IO (Except ConfigError Config) := do
  let file ← readFileText path
  let missing : Bool := match file with
    | .error e => e == .notFound || e == .notDirectory
    | .ok _ => false
  return Config.ofFile path (if missing then none else some file)

/-- Reads the source of an invocation. -/
def readSource (i : Invocation) : IO (Except ReadError String) := do
  match i.file with
  | some path => readFileText path
  | none => return readText (← readStream (← IO.getStdin) ByteArray.empty)

/-- Prints an outcome and gives its exit code. -/
def printOutcome (o : Outcome) : IO UInt32 := do
  IO.print o.output
  IO.eprint o.errors
  return o.code.number.toUInt32

end LogoSyntax.CommandLine

open LogoSyntax LogoSyntax.CommandLine in
/-- Runs a command line. -/
def main (words : List String) : IO UInt32 := do
  match Invocation.ofWords words with
  | .error stop => printOutcome (stop.outcome {})
  | .ok i =>
    let path := i.configPath ((← IO.getEnv "HOME").getD ".")
    let config ← loadConfig path
    match config >>= Config.levelFilter with
    | .error _ => printOutcome (i.run path config (.ok ""))
    | .ok _ => printOutcome (i.run path config (← readSource i))

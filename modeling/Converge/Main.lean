import Converge.Program
import Converge.Timestamp
import Std.Time.DateTime.Timestamp

/-!
# The entry of the program

Gathers what a run depends on, and prints what comes of it. Hosts are not reached from here, so without `--memory`
every call fails as one to an unreachable store does.
-/

namespace Converge.Entry

/-- The text of a file, or why it cannot be read. -/
def readText (path : String) : IO (Except FileError String) := do
  try
    match String.fromUTF8? (← IO.FS.readBinFile path) with
    | some text => return .ok text
    | none => return .error .notText
  catch
    | .noFileOrDirectory _ _ _ => return .error .missing
    | .inappropriateType _ _ _ => return .error .directory
    | e => return .error (.other (toString e))

/-- The environment of the process. -/
def environment : IO Environment := do
  let values ← Program.variableNames.mapM fun name => return (name, ← IO.getEnv name)
  let home := (← IO.getEnv "HOME").getD "/"
  return ⟨fun name => (values.lookup name).join, home⟩

/-- The present moment, as it is stamped on objects. -/
def now : IO String := do
  return Timestamp.text (← Std.Time.Timestamp.now).toSecondsSinceUnixEpoch.val.toNat

/-- What a run with a command line depends on. -/
def surroundings (words : List String) : IO Surroundings := do
  let environment ← environment
  let texts ← (Program.filesOf environment words).mapM fun path => return (path, ← readText path)
  return ⟨environment, Files.ofPaths texts, ← now⟩

/-- The words about a run without a result. -/
def complaint (trouble : Trouble) : String :=
  "Error: " ++ trouble.message ++ trouble.cause?.elim "" fun cause => "\n\nCaused by:\n    " ++ cause

end Converge.Entry

/-- Runs the program. -/
def main (words : List String) : IO UInt32 := do
  match Converge.Program.run Converge.Http.Network.unreachable (← Converge.Entry.surroundings words) words with
  | .ok output =>
      (← IO.getStdout).putStr output
      return 0
  | .error trouble =>
      IO.eprintln (Converge.Entry.complaint trouble)
      return trouble.exitCode.toUInt32

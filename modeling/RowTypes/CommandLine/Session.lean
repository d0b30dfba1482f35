import RowTypes.CommandLine.Read
import RowTypes.Generation.Run

/-! A use of the command line from its arguments to its exit code. -/

namespace RowTypes.CommandLine

namespace ExitCode

def success : Nat := 0

def usage : Nat := 2

def data : Nat := 65

def unavailable : Nat := 69

def io : Nat := 74

def temporary : Nat := 75

def config : Nat := 78

def ofRunError : RunError → Nat
  | .config _ => config
  | .catalog _ | .connectionTimeout | .connection _ => unavailable
  | .git (.dirty _ _) | .cancelled => temporary
  | .git _ => io
  | .describe _ | .extract _ | .infer _ | .write _ => data

def ofReport (r : Report) : Nat := if r.hasFailures then data else success

theorem ofRunError_ne_success (e : RunError) : ofRunError e ≠ success := by
  unfold ofRunError
  split <;> decide

end ExitCode

structure Session where
  exitCode : Nat
  output : String
  errorOutput : String
  world : World

namespace Session

def line (text : String) : String := text ++ "\n"

def ofUsageError (e : UsageError) (w : World) : Session :=
  if e.isInformation then ⟨ExitCode.success, line e.message, "", w⟩
  else ⟨ExitCode.usage, "", line e.message, w⟩

def ofConfigError (e : ConfigError) (w : World) : Session :=
  ⟨ExitCode.config, "", line ("Configuration Error: " ++ e.message), w⟩

def ofOutcome (o : Generation.Outcome) : Session :=
  match o.result with
  | .ok r => ⟨ExitCode.ofReport r, line r.summary, "", o.world⟩
  | .error e => ⟨ExitCode.ofRunError e, "", line e.message, o.world⟩

/-- What is set in the file, the environment and the flags, of which the last count. -/
def options (t : FileTree) (environment : Environment.Variables) (a : Arguments) :
    Except ConfigError (Options × List String) := do
  let s ← Settings.load t environment a.configPath
  let (o, warnings) ← Options.resolve (s.overlay a.given.settings)
  return ({ o with log := a.given.applyToLog o.log }, warnings)

def run (args : List String) (environment : Environment.Variables) (s : Surroundings)
    (w : World) : Session :=
  match Arguments.ofList args environment with
  | .error e => ofUsageError e w
  | .ok a =>
    match options w.tree environment a with
    | .error e => ofConfigError e w
    | .ok (o, warnings) =>
      let diagnostics := warnings.foldl Diagnostics.warn w.diagnostics
      ofOutcome (Generation.run o s { w with diagnostics })

end Session
end RowTypes.CommandLine

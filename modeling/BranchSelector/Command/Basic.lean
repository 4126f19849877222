import BranchSelector.Baseline.Gshare
import BranchSelector.Config.Document
import BranchSelector.Replay
import BranchSelector.Stats.Report
import BranchSelector.Trace.Parse

/-!
# The command

One run of the command replays a trace over a gshare baseline and prints the selection
report, and on request the tables of the correlator before it. The configuration is
read first, then the trace, and the configuration is checked last; the first of these
that fails ends the command with a line on the error output.

The command is a function of the contents of its files. Only the time that the replay
took, which the report tells, comes from outside.
-/

namespace BranchSelector

/-- What the command is asked to do. -/
structure Command where
  trace : File
  config : Option File := none
  /-- The delay that takes the place of the configured one. -/
  resolveDelay : Option Nat := none
  dump : Bool := false

/-- Why the command cannot do it. -/
inductive CommandError where
  | unreadableConfig (name : String) (fault : FileFault)
  | malformedConfig (name : String) (fault : Json.Fault)
  | trace (name : String) (error : TraceError)
  | invalidConfig (error : ConfigError)
  | broken (violation : Violation)

def CommandError.message : CommandError → String
  | unreadableConfig name fault => s!"Config error: {name}: {fault.message}"
  | malformedConfig name fault => s!"Config error: {name}: {fault.message}"
  | trace name error => s!"Trace error: {name}: {error.message}"
  | invalidConfig error => s!"Invalid configuration: {error.message}"
  | broken violation => violation.message

/-- What a replay left behind to be told. -/
structure Summary where
  traceName : String
  branches : Nat
  config : Config
  /-- The text of the correlator, if it was asked for. -/
  tables : Option String
  stats : Stats
  deriving DecidableEq, Repr

/-- The text of a summary, of which the replay took some seconds. -/
def Summary.text (summary : Summary) (seconds : Float) : String :=
  let config := summary.config
  s!"[*] Trace: {summary.traceName} ({summary.branches} branches)\n"
    ++ s!"    mode={config.arbiter.mode.name} filter={config.effectiveFilterKind.name} "
    ++ s!"resolve_delay={config.replay.resolveDelay}\n"
    ++ (match summary.tables with
      | some tables => tables ++ "\n"
      | none => "")
    ++ summary.stats.report seconds

/-- What the command prints, and its exit code. -/
structure Printed where
  /-- Zero if the command did what it was asked for. -/
  exitCode : Nat
  output : String := ""
  errors : String := ""
  deriving DecidableEq, Repr

namespace Command

def readConfig (file : File) : Except CommandError Config := do
  let bytes ← file.content.mapError (.unreadableConfig file.name)
  let text ← (decodeText bytes).mapError (.unreadableConfig file.name)
  (Config.ofJson text).mapError (.malformedConfig file.name)

def configuration (command : Command) : Except CommandError Config := do
  let config ← match command.config with
    | some file => readConfig file
    | none => pure {}
  match command.resolveDelay with
  | some delay => return { config with replay := { config.replay with resolveDelay := delay } }
  | none => return config

/-- Replays records with a selector until every branch has resolved. -/
def replay (command : Command) (records : List Branch)
    (selector : Selector (Gshare Gshare.defaultBits)) : Except Violation Summary := do
  let config := selector.config
  let (_, r) ← (Replay.start selector config.replay.resolveDelay).run records
  let (_, r) ← r.drain
  let (stats, _) ← r.finish
  return {
    traceName := command.trace.name
    branches := records.length
    config
    tables := if command.dump then some r.selector.correlator.text else none
    stats }

def run (command : Command) : Except CommandError Summary := do
  let config ← command.configuration
  let records ← (Trace.load command.trace.content).mapError (.trace command.trace.name)
  let selector ←
    (Selector.create config (Gshare.fresh Gshare.defaultBits)).mapError .invalidConfig
  (command.replay records selector).mapError .broken

/-- What is printed for the result of a run that took some seconds. -/
def print (result : Except CommandError Summary) (seconds : Float) : Printed :=
  match result with
  | .ok summary => { exitCode := 0, output := summary.text seconds }
  | .error error => { exitCode := 1, errors := "[!] " ++ error.message ++ "\n" }

end Command

end BranchSelector

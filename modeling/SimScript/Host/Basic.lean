import SimScript.Host.Loading
import SimScript.Json.Printer

/-!
# Hosts

A host runs a machine by its settings, and passes the lines of the log on as
lines of a trace.
-/

namespace SimScript

structure Host where
  settings : HostSettings
  machine : Machine

structure RunSummary where
  turns : Nat := 0
  finished : Nat := 0
  terminated : Nat := 0
  instructions : Nat := 0
  /-- How many handles that had come to their end were dropped. -/
  reaped : Nat := 0
  /-- Whether every handle has come to its end. -/
  idle : Bool := false
  deriving DecidableEq

def RunSummary.count (summary : RunSummary) (report : TurnReport) (reaped : Nat) : RunSummary :=
  { summary with
    turns := summary.turns + 1
    finished := summary.finished + report.finished
    terminated := summary.terminated + report.terminated
    instructions := summary.instructions + report.instructions
    reaped := summary.reaped + reaped }

inductive TraceLevel where
  | error
  | warn
  | info
  | debug
  | trace
  deriving DecidableEq

def TraceLevel.name : TraceLevel → String
  | .error => "ERROR"
  | .warn => "WARN"
  | .info => "INFO"
  | .debug => "DEBUG"
  | .trace => "TRACE"

def TraceLevel.ofSeverity : Severity → TraceLevel
  | .fatal | .error => .error
  | .warning => .warn
  | .info => .info
  | .verbose => .debug
  | .trace => .trace

/-- The severity that a line of a trace names, where its level leaves it open. -/
def Record.namedSeverity? (record : Record) : Option Severity :=
  if TraceLevel.ofSeverity record.severity = .error then some record.severity else none

def Environment.name : Environment → String
  | .scheduled => "Scheduled"
  | .unscheduled => "Unscheduled"

def FrameSnapshot.toJson (frame : FrameSnapshot) : Json :=
  .object
    [("kind", .string frame.kind),
      ("ip", .integer frame.ip),
      ("instructions", .integer frame.instructions),
      ("operands", .integer frame.operands),
      ("scope", .integer frame.scope),
      ("environment", .string frame.environment.name),
      ("location", .string frame.location)]

namespace Host

def ofSettings (settings : HostSettings) : Host :=
  { settings, machine := .ofSettings settings.effective }

/-- A host with the settings of a file and the config tree that they name. -/
def ofFile (application : Application) (files : FileTree) (path : FilePath) :
    Except HostError Host := do
  let settings ← HostSettings.ofFile application files path
  match settings.configTree with
  | none => return ofSettings settings
  | some tree =>
      let configs ←
        match tree with
        | .placed path => ConfigTree.ofFile files path
        | .named _ => .error .unreadable
      let host := ofSettings settings
      return { host with machine := host.machine.setConfigs configs }

def loadConfigs (host : Host) (files : FileTree) (path : FilePath) : Except HostError Host := do
  let configs ← ConfigTree.ofFile files path
  return { host with machine := host.machine.setConfigs configs }

/-- Runs turns, and drops the handles that have come to their end after each. -/
def runTurns (fuel : Nat) :
    (turns : Nat) → RunSummary → Machine → Option (RunSummary × Machine)
  | 0, summary, machine => some (summary, machine)
  | turns + 1, summary, machine => do
      if machine.world.scheduler.isIdle then
        return (summary, machine)
      let (report, ran) ← machine.runTurn fuel
      let (reaped, kept) := ran.reap
      let counted := summary.count report reaped
      match report.ran, kept.world.scheduler.nextWake? with
      | 0, none => return (counted, kept)
      | 0, some wake =>
          runTurns fuel turns counted (kept.advance (Scalar.larger (wake - kept.world.now) 0))
      | _, _ => runTurns fuel turns counted kept

/-- Runs turns until every handle has come to its end or `turns` turns were run. -/
def run (host : Host) (fuel turns : Nat) : Option (RunSummary × Host) :=
  (runTurns fuel turns {} host.machine).map fun (summary, machine) =>
    ({ summary with idle := machine.world.scheduler.isIdle }, { host with machine })

/-- The frames of a handle as the text of a JSON document; a handle that is not kept has none. -/
def snapshotText (host : Host) (id : HandleId) : String :=
  Json.spread 0 (.array (((host.machine.snapshot? id).getD []).map FrameSnapshot.toJson))

end Host

end SimScript

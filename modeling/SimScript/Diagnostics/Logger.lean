import SimScript.Diagnostics.Event

/-!
# The log

A logger keeps the lines of the severities that are enabled, in the order in
which they arose, and counts them.  The enabled severities decide what is kept
and nothing else.
-/

namespace SimScript

structure Record where
  severity : Severity
  text : String
  deriving DecidableEq

/-- The enabled severities, how many lines of each severity were kept, and the lines. -/
structure Logger where
  levels : LogLevels := LogLevels.everything
  emitted : PerSeverity Nat := PerSeverity.ofFn fun _ => 0
  records : Array Record := #[]

namespace Logger

def log (logger : Logger) (severity : Severity) (text : String) : Logger :=
  if logger.levels.get severity then
    { logger with
      emitted := logger.emitted.set severity (logger.emitted.get severity + 1)
      records := logger.records.push ⟨severity, text⟩ }
  else logger

def emit (logger : Logger) (event : Event) : Logger :=
  if logger.levels.get event.severity then logger.log event.severity event.render else logger

def emitAll (logger : Logger) (events : Array Event) : Logger :=
  events.foldl emit logger

def setEnabled (logger : Logger) (severity : Severity) (enabled : Bool) : Logger :=
  { logger with levels := logger.levels.set severity enabled }

/-- Forgets the lines, and keeps the counts. -/
def clearRecords (logger : Logger) : Logger :=
  { logger with records := #[] }

/-- How many lines of a severity are kept. -/
def countSeverity (logger : Logger) (severity : Severity) : Nat :=
  logger.records.toList.countP fun record => record.severity = severity

/-- How many lines mention a code. -/
def countCode (logger : Logger) (code : Nat) : Nat :=
  logger.records.toList.countP fun record =>
    Text.contains record.text ("[" ++ Decimal.digitText code ++ "]")

def mentions (logger : Logger) (fragment : String) : Bool :=
  logger.records.toList.any fun record => Text.contains record.text fragment

end Logger

end SimScript

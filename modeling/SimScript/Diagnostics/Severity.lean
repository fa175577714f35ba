import SimScript.Text.Ascii
import SimScript.Text.Blank

/-!
# Severities

How grave a diagnostic is, in ascending order, and tables with one entry for
each severity.
-/

namespace SimScript

inductive Severity where
  | trace
  | verbose
  | info
  | warning
  | error
  | fatal
  deriving DecidableEq, Inhabited

namespace Severity

def all : List Severity := [.trace, .verbose, .info, .warning, .error, .fatal]

def rank : Severity → Nat
  | .trace => 0
  | .verbose => 1
  | .info => 2
  | .warning => 3
  | .error => 4
  | .fatal => 5

def atLeast (severity minimum : Severity) : Bool :=
  minimum.rank ≤ severity.rank

def name : Severity → String
  | .trace => "trace"
  | .verbose => "verbose"
  | .info => "info"
  | .warning => "warning"
  | .error => "error"
  | .fatal => "fatal"

/-- The mark of fixed width that opens each line of the log. -/
def tag : Severity → String
  | .trace => "[TRC]"
  | .verbose => "[VBS]"
  | .info => "[INF]"
  | .warning => "[WRN]"
  | .error => "[ERR]"
  | .fatal => "[FAT]"

def ofName? (name : String) : Option Severity :=
  all.find? fun severity => severity.name = name

/-- Reads a severity leniently: blanks around it and case do not count, and `warn` is a warning.
The error is the text that was not understood. -/
def parse (text : String) : Except String Severity :=
  let word := Text.lower (Text.trim text)
  if word = "warn" then .ok .warning
  else
    match ofName? word with
    | some severity => .ok severity
    | none => .error s!"unknown severity '{word}'"

theorem mem_all (severity : Severity) : severity ∈ all := by
  cases severity <;> decide

theorem ofName?_name (severity : Severity) : ofName? severity.name = some severity := by
  cases severity <;> decide

end Severity

/-- A table with one entry for each severity. -/
structure PerSeverity (α : Type) where
  trace : α
  verbose : α
  info : α
  warning : α
  error : α
  fatal : α
  deriving DecidableEq

namespace PerSeverity

variable {α : Type}

def ofFn (entry : Severity → α) : PerSeverity α where
  trace := entry .trace
  verbose := entry .verbose
  info := entry .info
  warning := entry .warning
  error := entry .error
  fatal := entry .fatal

def get (table : PerSeverity α) : Severity → α
  | .trace => table.trace
  | .verbose => table.verbose
  | .info => table.info
  | .warning => table.warning
  | .error => table.error
  | .fatal => table.fatal

def set (table : PerSeverity α) (severity : Severity) (entry : α) : PerSeverity α :=
  ofFn fun other => if other = severity then entry else table.get other

def toList (table : PerSeverity α) : List α :=
  Severity.all.map table.get

@[simp] theorem get_ofFn (entry : Severity → α) (severity : Severity) :
    (ofFn entry).get severity = entry severity := by
  cases severity <;> rfl

theorem get_set (table : PerSeverity α) (severity other : Severity) (entry : α) :
    (table.set severity entry).get other = if other = severity then entry else table.get other := by
  simp [set]

end PerSeverity

/-- Which severities reach the log. -/
abbrev LogLevels := PerSeverity Bool

namespace LogLevels

def everything : LogLevels := PerSeverity.ofFn fun _ => true

def fromMinimum (minimum : Severity) : LogLevels :=
  PerSeverity.ofFn fun severity => severity.atLeast minimum

end LogLevels

end SimScript

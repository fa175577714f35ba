import SimScript.Diagnostics.Severity

/-!
# Settings of the machine

Limits and switches that the host chooses before scripts run.
-/

namespace SimScript

structure Settings where
  /-- How many instructions a handle may execute, if there is a limit. -/
  instructionBudget : Option Nat := none
  allowSuspension : Bool := true
  networkingEnabled : Bool := false
  /-- Whether the classes of new objects have to be in the config tree. -/
  classnameChecks : Bool := true
  extensionBufferSize : Nat := 10240
  /-- The largest array that `resize` and `set` may make. -/
  maxArraySize : Nat := 9999999
  logLevels : LogLevels := LogLevels.everything
  deriving DecidableEq

end SimScript

import SimScript.Decimal.Reader
import SimScript.Settings.Basic

/-!
# Settings of an application

The application that runs the machine lends its name to the variables of the
environment, to the file of its settings and to the filter of its log.
-/

namespace SimScript

/-- An application, by its name in small letters. -/
structure Application where
  name : String

namespace Application

/-- The variable of the environment for a setting: the name in capitals, an underscore, the
setting. -/
def variableName (application : Application) (setting : String) : String :=
  String.ofList (application.name.toList.map Char.toUpper) ++ "_" ++ setting

def settingsFile (application : Application) : String :=
  application.name ++ ".toml"

def defaultFilter (application : Application) : String :=
  application.name ++ "=info"

end Application

namespace Settings

def readSwitch? (text : String) : Option Bool :=
  let word := Text.lower (Text.trim text)
  if ["1", "true", "yes", "on"].contains word then some true
  else if ["0", "false", "no", "off"].contains word then some false
  else none

def readCountText? (text : String) : Option Nat :=
  Decimal.readCount? Decimal.countLimit (Text.trim text)

/-- The settings that the environment asks for; a variable that is missing or makes no sense leaves
the default, and a budget of zero is none. -/
def fromEnvironment (application : Application) (environment : String → Option String) :
    Settings :=
  let defaults : Settings := {}
  let asked := fun (setting : String) => environment (application.variableName setting)
  let switch := fun (setting : String) (held : Bool) =>
    ((asked setting).bind readSwitch?).getD held
  let count := fun (setting : String) (held : Nat) =>
    ((asked setting).bind readCountText?).getD held
  { instructionBudget :=
      match (asked "INSTRUCTION_BUDGET").bind readCountText? with
      | some 0 => none
      | some budget => some budget
      | none => defaults.instructionBudget
    allowSuspension := switch "ALLOW_SUSPENSION" defaults.allowSuspension
    networkingEnabled := switch "NETWORKING" defaults.networkingEnabled
    classnameChecks := switch "CLASSNAME_CHECKS" defaults.classnameChecks
    extensionBufferSize := count "EXTENSION_BUFFER" defaults.extensionBufferSize
    maxArraySize := count "MAX_ARRAY_SIZE" defaults.maxArraySize
    logLevels :=
      match (asked "LOG_MIN_LEVEL").map Severity.parse with
      | some (.ok minimum) => LogLevels.fromMinimum minimum
      | _ => defaults.logLevels }

end Settings

end SimScript

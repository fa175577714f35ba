import SimScript.Host.FilePath
import SimScript.Settings.Application
import SimScript.Settings.Document
import SimScript.Store.Render
import SimScript.Toml.Parser
import SimScript.Toml.Quoted

/-!
# Settings of a host

A host keeps the settings of its machine, those of its log and the file of its
config tree in one TOML document.  In its arrays, items after the last one that is
asked for do not count.
-/

namespace SimScript

/-- Settings of the log: a filter for the host, and the least severity that is kept. -/
structure LoggingSettings where
  filter : String
  minLevel : Severity := .verbose
  deriving DecidableEq

inductive TreeFile where
  /-- Where the settings say, in their own words. -/
  | named (text : String)
  /-- At a path from the directory of the host's files. -/
  | placed (path : FilePath)
  deriving DecidableEq

def TreeFile.text : TreeFile → String
  | .named text => text
  | .placed path => path.trimmed.text

structure HostSettings where
  machine : Settings := {}
  logging : LoggingSettings
  /-- The file of the config tree. -/
  configTree : Option TreeFile := none
  deriving DecidableEq

namespace HostSettings

def defaults (application : Application) : HostSettings :=
  { logging := { filter := application.defaultFilter } }

/-- Reads a severity: its name in small letters, or a table in which the name stands alone over
nothing. -/
def readSeverity? : Json → Option Severity
  | .string name => Severity.ofName? name
  | .object [(name, .array [])] => Severity.ofName? name
  | .object [(name, .object [])] => Severity.ofName? name
  | _ => none

def loggingNames : List String := ["filter", "min_level"]

def readLoggingMembers? (held : LoggingSettings) (members : List (String × Json)) :
    Option LoggingSettings := do
  let filter ← Settings.member? members "filter" Json.asString? held.filter
  let minLevel ← Settings.member? members "min_level" readSeverity? held.minLevel
  return ⟨filter, minLevel⟩

def readLogging? (held : LoggingSettings) : Json → Option LoggingSettings
  | .object members => readLoggingMembers? held members
  | .array items =>
      (Surplus.items? .dropped loggingNames.length items).bind fun items =>
        readLoggingMembers? held (loggingNames.zip items)
  | _ => none

def ofJson? (application : Application) (json : Json) : Option HostSettings := do
  let held := defaults application
  match json with
  | .object members =>
      let machine ← Settings.member? members "vm" (Settings.ofJson? .dropped) held.machine
      let logging ← Settings.member? members "logging" (readLogging? held.logging) held.logging
      let configTree ← Settings.member? members "config_tree"
        (fun json => json.asString?.map fun text => some (.named text)) held.configTree
      return ⟨machine, logging, configTree⟩
  | _ => none

def ofToml? (application : Application) (text : String) : Option HostSettings :=
  (Toml.parse? text).bind (ofJson? application)

/-- The settings of the machine, with the least severity of the log applied. -/
def effective (settings : HostSettings) : Settings :=
  { settings.machine with logLevels := LogLevels.fromMinimum settings.logging.minLevel }

def line (key value : String) : String :=
  key ++ " = " ++ value ++ "\n"

def lineFor? (key : String) (value : Option String) : String :=
  match value with
  | some value => line key value
  | none => ""

def machineSection (settings : Settings) : String :=
  "[vm]\n"
    ++ lineFor? "instruction_budget" (settings.instructionBudget.map Decimal.digitText)
    ++ line "allow_suspension" (flagText settings.allowSuspension)
    ++ line "networking_enabled" (flagText settings.networkingEnabled)
    ++ line "classname_checks" (flagText settings.classnameChecks)
    ++ line "extension_buffer_size" (Decimal.digitText settings.extensionBufferSize)
    ++ line "max_array_size" (Decimal.digitText settings.maxArraySize)
    ++ "\n[vm.log_levels]\nenabled = [\n"
    ++ String.join (settings.logLevels.toList.map fun enabled =>
      "    " ++ flagText enabled ++ ",\n")
    ++ "]\n"

def loggingSection (settings : LoggingSettings) : String :=
  "[logging]\n"
    ++ line "filter" (Toml.quoted settings.filter)
    ++ line "min_level" (Toml.quoted settings.minLevel.name)

def toToml (settings : HostSettings) : String :=
  let tree :=
    match settings.configTree with
    | some tree => line "config_tree" (Toml.quoted tree.text) ++ "\n"
    | none => ""
  tree ++ machineSection settings.machine ++ "\n" ++ loggingSection settings.logging

end HostSettings

end SimScript

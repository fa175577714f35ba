import SimScript.Decimal.Reader
import SimScript.Json.Basic
import SimScript.Settings.Basic

/-!
# Settings as documents

Settings are read from an object whose members may be missing, or from an array
that lists them in order and may break off.  Members that are not known do not
count; a member of the wrong type spoils the whole.  Whether an array may go on
after the last item that is asked for depends on the kind of document.
-/

namespace SimScript

/-- What becomes of the items of an array after the last one that is asked for. -/
inductive Surplus where
  /-- They spoil the array. -/
  | refused
  /-- They do not count. -/
  | dropped
  deriving DecidableEq

def Surplus.items? (surplus : Surplus) (limit : Nat) (items : List Json) : Option (List Json) :=
  match surplus with
  | .refused => if items.length ≤ limit then some items else none
  | .dropped => some (items.take limit)

namespace Settings

/-- Whether a document can hold a count. -/
def isCount (value : Nat) : Bool :=
  value < Decimal.countLimit

def readCount? (json : Json) : Option Nat :=
  json.asNat?.filter isCount

/-- Reads a count or the absence of one. -/
def readBudget? : Json → Option (Option Nat)
  | .null => some none
  | json => (readCount? json).map some

def readSix? (surplus : Surplus) (json : Json) : Option LogLevels :=
  match json.asArray?.bind (surplus.items? 6) with
  | some [.bool trace, .bool verbose, .bool info, .bool warning, .bool error, .bool fatal] =>
      some ⟨trace, verbose, info, warning, error, fatal⟩
  | _ => none

def readLevels? (surplus : Surplus) : Json → Option LogLevels
  | .object members => (members.lookup "enabled").bind (readSix? surplus)
  | .array items =>
      match surplus.items? 1 items with
      | some [enabled] => readSix? surplus enabled
      | _ => none
  | _ => none

def memberNames : List String :=
  ["instruction_budget", "allow_suspension", "networking_enabled", "classname_checks",
    "extension_buffer_size", "max_array_size", "log_levels"]

/-- Reads a member over the value it has so far; a missing member leaves it. -/
def member? {α : Type} (members : List (String × Json)) (name : String) (read : Json → Option α)
    (held : α) : Option α :=
  match members.lookup name with
  | none => some held
  | some json => read json

def ofMembers? (surplus : Surplus) (members : List (String × Json)) : Option Settings := do
  let defaults : Settings := {}
  let instructionBudget ← member? members "instruction_budget" readBudget?
    defaults.instructionBudget
  let allowSuspension ← member? members "allow_suspension" Json.asBool? defaults.allowSuspension
  let networkingEnabled ← member? members "networking_enabled" Json.asBool?
    defaults.networkingEnabled
  let classnameChecks ← member? members "classname_checks" Json.asBool? defaults.classnameChecks
  let extensionBufferSize ← member? members "extension_buffer_size" readCount?
    defaults.extensionBufferSize
  let maxArraySize ← member? members "max_array_size" readCount? defaults.maxArraySize
  let logLevels ← member? members "log_levels" (readLevels? surplus) defaults.logLevels
  return ⟨instructionBudget, allowSuspension, networkingEnabled, classnameChecks,
    extensionBufferSize, maxArraySize, logLevels⟩

def ofJson? (surplus : Surplus) : Json → Option Settings
  | .object members => ofMembers? surplus members
  | .array items =>
      (surplus.items? memberNames.length items).bind fun items =>
        ofMembers? surplus (memberNames.zip items)
  | _ => none

def levelsJson (levels : LogLevels) : Json :=
  .object [("enabled", .array (levels.toList.map Json.bool))]

def budgetJson : Option Nat → Json
  | none => .null
  | some budget => .integer budget

def toJson (settings : Settings) : Json :=
  Json.ofMembers
    [("instruction_budget", budgetJson settings.instructionBudget),
      ("allow_suspension", .bool settings.allowSuspension),
      ("networking_enabled", .bool settings.networkingEnabled),
      ("classname_checks", .bool settings.classnameChecks),
      ("extension_buffer_size", .integer settings.extensionBufferSize),
      ("max_array_size", .integer settings.maxArraySize),
      ("log_levels", levelsJson settings.logLevels)]

end Settings

end SimScript

import SimScript.Config.Tree
import SimScript.Json.Parser

/-!
# Config trees from JSON

Objects become classes; numbers, texts and arrays become values.  The member
`#parent` of an object names the parent of its class.
-/

namespace SimScript

/-- Why a JSON document is no config tree: where, and what is wrong. -/
structure ConfigLoadError where
  path : String
  reason : String
  deriving DecidableEq

def ConfigLoadError.message (error : ConfigLoadError) : String :=
  s!"invalid config tree at '{error.path}': {error.reason}"

namespace ConfigTree

def parentKey : String := "#parent"

def memberPath (path name : String) : String :=
  if path.isEmpty then name else path ++ " >> " ++ name

mutual

def loadValue (path : String) : Json → Except ConfigLoadError ConfigValue
  | .integer (.ofNat value) => .ok (.number (Float.ofNat value))
  | .integer (.negSucc value) => .ok (.number (-Float.ofNat (value + 1)))
  | .decimal value => .ok (.number value)
  | .string content => .ok (.text content)
  | .array items =>
      match loadValues path items with
      | .ok values => .ok (.array values)
      | .error error => .error error
  | .bool _ => .error ⟨path, "booleans are not config values"⟩
  | .null => .error ⟨path, "null is not a config value"⟩
  | .object _ => .error ⟨path, "classes cannot appear inside arrays"⟩

/-- The values of an array, up to the first that is none. -/
def loadValues (path : String) : List Json → Except ConfigLoadError (List ConfigValue)
  | [] => .ok []
  | item :: items =>
      match loadValue path item with
      | .error error => .error error
      | .ok value =>
          match loadValues path items with
          | .ok values => .ok (value :: values)
          | .error error => .error error

end

mutual

def loadEntry (path : String) : Json → Except ConfigLoadError ConfigEntry
  | .object members =>
      match loadMembers path {} members with
      | .ok loaded => .ok loaded.toEntry
      | .error error => .error error
  | json =>
      match loadValue path json with
      | .ok value => .ok (.value value)
      | .error error => .error error

/-- Adds the members of an object to a class, in order, up to the first that is wrong. -/
def loadMembers (path : String) (built : ConfigClass) :
    List (String × Json) → Except ConfigLoadError ConfigClass
  | [] => .ok built
  | (name, member) :: rest =>
      if name = parentKey then
        match member with
        | .string parent => loadMembers path { built with parent := some parent } rest
        | _ => .error ⟨memberPath path name, "the parent must be a class name"⟩
      else
        match loadEntry (memberPath path name) member with
        | .ok entry => loadMembers path (built.insert name entry) rest
        | .error error => .error error

end

def ofJson (json : Json) : Except ConfigLoadError ConfigTree :=
  match json with
  | .object members =>
      match loadMembers "" {} members with
      | .ok root => .ok ⟨root⟩
      | .error error => .error error
  | _ => .error ⟨"", "the root must be an object"⟩

end ConfigTree

end SimScript

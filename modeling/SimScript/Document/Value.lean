import SimScript.Config.Tree
import SimScript.Decimal.Layout
import SimScript.Json.Basic
import SimScript.Store.Basic

/-!
# Values as documents

The JSON form in which values leave the machine.  A scalar is an object with its
full decimal text, so that nothing is lost on the way; arrays are written out.
-/

namespace SimScript.Document

def object (members : List (String × Json)) : Json :=
  Json.ofMembers members

def count (count : Nat) : Json :=
  .integer count

def list {α : Type} (write : α → Json) (items : List α) : Json :=
  .array (items.map write)

def orNull {α : Type} (write : α → Json) : Option α → Json
  | some value => write value
  | none => .null

def texts (items : List String) : Json :=
  list Json.string items

def scalarText (number : Float) : Json :=
  .string (Decimal.scalarText number)

def scalar (number : Float) : Json :=
  object [("n", scalarText number)]

def kindWord : ObjectKind → String
  | .unit => "Unit"
  | .vehicle => "Vehicle"
  | .group => "Group"
  | .marker => "Marker"

/-- A reference to an object; null and deleted objects have no number. -/
def ref (objects : ObjectTable) (ref : ObjectRef) : Json :=
  let live := if objects.isNull ref then none else ref.id
  object [("obj", .string (kindWord ref.kind)),
    ("id", orNull (fun id => count (ObjectId.number id)) live)]

/-- A value, following arrays down to `depth`. -/
def valueTo (store : Store) : (depth : Nat) → Value → Json
  | _, .nil => .null
  | _, .boolean flag => .bool flag
  | _, .scalar number => scalar number
  | _, .text content => .string content
  | 0, .array _ => .array []
  | depth + 1, .array cell => list (valueTo store depth) (store.items cell).toList
  | _, .config ref => object [("config", orNull texts ref.path)]
  | _, .code block => object [("code", count (store.block block).length)]
  | _, .script id => object [("script", orNull count id)]
  | _, .object held => ref store.objects held
  | _, .side side => object [("side", .string side.name)]
  | _, .ifPart flag => object [("if", .bool flag)]
  | _, .whilePart block => object [("while", count (store.block block).length)]
  | _, .forPart spec =>
      object [("for", .array [.string spec.variableName, scalarText spec.start,
        scalarText spec.stop, scalarText spec.step])]

def value (store : Store) (value : Value) : Json :=
  valueTo store store.depthBound value

/-- A value that may be missing, which differs from nil. -/
def valueOrUndefined (store : Store) : Option Value → Json
  | some held => value store held
  | none => object [("undef", .bool true)]

mutual

def configValue : ConfigValue → Json
  | .number number => scalar number
  | .text content => .string content
  | .array items => .array (configValues items)

def configValues : List ConfigValue → List Json
  | [] => []
  | item :: items => configValue item :: configValues items

end

mutual

def configEntry : ConfigEntry → Json
  | .value held => object [("value", configValue held)]
  | .classOf parent entries =>
      object [("parent", orNull Json.string parent), ("entries", .array (configEntries entries))]

def configEntries : List (String × ConfigEntry) → List Json
  | [] => []
  | (name, entry) :: entries => .array [.string name, configEntry entry] :: configEntries entries

end

end SimScript.Document

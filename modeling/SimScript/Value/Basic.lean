import SimScript.Config.Ref
import SimScript.Value.Kind

/-!
# Values

A script value is flat: arrays, code blocks, handles and objects are named by
number, and what they hold is kept in the store and in the tables of the world.
Two values that name the same cell share one array.
-/

namespace SimScript

/-- Names an array cell of the store. -/
abbrev CellId := Nat

abbrev BlockId := Nat

abbrev HandleId := Nat

/-- Names a simulation object by its place in the order of creation. -/
abbrev ObjectId := Nat

/-- The number by which scripts see an object: the first is 1. -/
def ObjectId.number (id : ObjectId) : Nat :=
  id + 1

/-- A reference to an object of a kind; without a number it is the null object of that kind. -/
structure ObjectRef where
  kind : ObjectKind
  id : Option ObjectId := none
  deriving DecidableEq, Inhabited

/-- The parts of `for variable from a to b step s`. -/
structure ForSpec where
  variableName : String
  start : Float
  stop : Float
  step : Float

inductive Value where
  | nil
  | boolean (flag : Bool)
  | scalar (number : Float)
  | text (content : String)
  | array (cell : CellId)
  | config (ref : ConfigRef)
  | code (block : BlockId)
  | script (handle : Option HandleId)
  | object (ref : ObjectRef)
  | side (side : Side)
  | ifPart (condition : Bool)
  | whilePart (condition : BlockId)
  | forPart (spec : ForSpec)
  deriving Inhabited

namespace Value

def type : Value → ValueType
  | .nil => .nil
  | .boolean _ => .boolean
  | .scalar _ => .scalar
  | .text _ => .string
  | .array _ => .array
  | .config _ => .config
  | .code _ => .code
  | .script _ => .script
  | .object ref => ref.kind.valueType
  | .side _ => .side
  | .ifPart _ => .ifPart
  | .whilePart _ => .whilePart
  | .forPart _ => .forPart

def isNil : Value → Bool
  | .nil => true
  | _ => false

def asBool? : Value → Option Bool
  | .boolean flag => some flag
  | _ => none

def asScalar? : Value → Option Float
  | .scalar number => some number
  | _ => none

def asText? : Value → Option String
  | .text content => some content
  | _ => none

def asArray? : Value → Option CellId
  | .array cell => some cell
  | _ => none

def asCode? : Value → Option BlockId
  | .code block => some block
  | _ => none

def asObject? : Value → Option ObjectRef
  | .object ref => some ref
  | _ => none

/-- The number of a scalar, and zero for any other value. -/
def number (value : Value) : Float :=
  value.asScalar?.getD 0

def content (value : Value) : String :=
  value.asText?.getD ""

def flag (value : Value) : Bool :=
  value.asBool?.getD false

/-- The reference of an object value, and the null vehicle for any other value. -/
def objectRef (value : Value) : ObjectRef :=
  value.asObject?.getD { kind := .vehicle }

def ofCount (count : Nat) : Value :=
  .scalar (Float.ofNat count)

end Value

end SimScript

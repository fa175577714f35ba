/-!
# Kinds of values

The type of a value, as signatures of commands and diagnostics name it.
-/

namespace SimScript

/-- The type of a value; `any` occurs in signatures only and accepts every value. -/
inductive ValueType where
  | any
  | nil
  | boolean
  | scalar
  | string
  | array
  | config
  | code
  | script
  | object
  | group
  | side
  | marker
  | ifPart
  | whilePart
  | forPart
  deriving DecidableEq, Inhabited

namespace ValueType

def name : ValueType → String
  | .any => "ANY"
  | .nil => "NOTHING"
  | .boolean => "BOOL"
  | .scalar => "SCALAR"
  | .string => "STRING"
  | .array => "ARRAY"
  | .config => "CONFIG"
  | .code => "CODE"
  | .script => "SCRIPT"
  | .object => "OBJECT"
  | .group => "GROUP"
  | .side => "SIDE"
  | .marker => "MARKER"
  | .ifPart => "IF"
  | .whilePart => "WHILE"
  | .forPart => "FOR"

def accepts (expected offered : ValueType) : Bool :=
  expected = .any || expected = offered

def joinNames (types : List ValueType) : String :=
  String.intercalate "|" (types.map name)

end ValueType

inductive ObjectKind where
  | unit
  | vehicle
  | group
  | marker
  deriving DecidableEq, Inhabited

/-- The type of a value that refers to an object: units and vehicles share one. -/
def ObjectKind.valueType : ObjectKind → ValueType
  | .unit | .vehicle => .object
  | .group => .group
  | .marker => .marker

inductive Side where
  | west
  | east
  | independent
  | civilian
  | unknown
  deriving DecidableEq, Inhabited

def Side.name : Side → String
  | .west => "WEST"
  | .east => "EAST"
  | .independent => "GUER"
  | .civilian => "CIV"
  | .unknown => "UNKNOWN"

end SimScript

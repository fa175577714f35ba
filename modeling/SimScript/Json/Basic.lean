/-!
# JSON documents

A document is a tree of JSON values.  Whole numbers that fit 64 bits stay whole;
every other number is a scalar.  The members of an object are kept in ascending
order of their keys, each key once.
-/

namespace SimScript

inductive Json where
  | null
  | bool (value : Bool)
  | integer (value : Int)
  | decimal (value : Float)
  | string (value : String)
  | array (items : List Json)
  | object (members : List (String × Json))
  deriving Inhabited

namespace Json

/-- Adds a member in its place among ascending keys; a key that is there already takes the new
value. -/
def insertMember (key : String) (value : Json) : List (String × Json) → List (String × Json)
  | [] => [(key, value)]
  | (other, held) :: rest =>
      if key = other then (key, value) :: rest
      else if key < other then (key, value) :: (other, held) :: rest
      else (other, held) :: insertMember key value rest

/-- The object with the given members, of which a later one of the same key wins. -/
def ofMembers (members : List (String × Json)) : Json :=
  .object (members.foldl (fun built (key, value) => insertMember key value built) [])

/-- The value of a member; what is no object and what lacks the key has `null`. -/
def get (json : Json) (key : String) : Json :=
  match json with
  | .object members => (members.lookup key).getD .null
  | _ => .null

def asString? : Json → Option String
  | .string value => some value
  | _ => none

def asBool? : Json → Option Bool
  | .bool value => some value
  | _ => none

def asNat? : Json → Option Nat
  | .integer (.ofNat value) => some value
  | _ => none

def asArray? : Json → Option (List Json)
  | .array items => some items
  | _ => none

/-- Any JSON number as a scalar. -/
def asScalar? : Json → Option Float
  | .integer (.ofNat value) => some (Float.ofNat value)
  | .integer (.negSucc value) => some (-Float.ofNat (value + 1))
  | .decimal value => some value
  | _ => none

end Json

end SimScript

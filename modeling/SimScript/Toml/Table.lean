import SimScript.Json.Basic

/-!
# Tables of a TOML document

A table comes to be by a header of its own, on the way to the table of a header, or
on the way to a key with dots.  A table on the way to another one may get its own
header once; a table from dots is open to keys with dots only.
-/

namespace SimScript.Toml

inductive Origin where
  /-- On the way to the table of a header. -/
  | implied
  /-- On the way to a key with dots. -/
  | dotted
  /-- By a header of its own. -/
  | headed
  deriving DecidableEq

inductive Entry where
  | value (json : Json)
  | table (origin : Origin) (members : List (String × Entry))

mutual

def Entry.toJson : Entry → Json
  | .value json => json
  | .table _ members => .object (membersToJson members)

def membersToJson : List (String × Entry) → List (String × Json)
  | [] => []
  | (key, entry) :: rest => Json.insertMember key entry.toJson (membersToJson rest)

end

def setMember (key : String) (entry : Entry) : List (String × Entry) → List (String × Entry)
  | [] => [(key, entry)]
  | (other, held) :: rest =>
      if key = other then (key, entry) :: rest else (other, held) :: setMember key entry rest

/-- Opens the table of a header.  It may be there already only on the way to another one. -/
def openTable? : List String → List (String × Entry) → Option (List (String × Entry))
  | [], _ => none
  | [key], members =>
      match members.lookup key with
      | none => some (setMember key (.table .headed []) members)
      | some (.table .implied inner) => some (setMember key (.table .headed inner) members)
      | some _ => none
  | key :: path, members =>
      match members.lookup key with
      | none => (openTable? path []).map fun inner =>
          setMember key (.table .implied inner) members
      | some (.table origin inner) => (openTable? path inner).map fun inner =>
          setMember key (.table origin inner) members
      | some (.value _) => none

/-- Whether a key with dots may pass through a table; `last` tells that the value goes into it. -/
def Origin.admitsDots (last : Bool) : Origin → Bool
  | .implied => !last
  | .dotted => true
  | .headed => false

def setValue? (json : Json) : List String → List (String × Entry) → Option (List (String × Entry))
  | [], _ => none
  | [key], members =>
      match members.lookup key with
      | none => some (setMember key (.value json) members)
      | some _ => none
  | key :: path, members =>
      match members.lookup key with
      | none => (setValue? json path []).map fun inner =>
          setMember key (.table .dotted inner) members
      | some (.table origin inner) =>
          if origin.admitsDots (path.length = 1) then
            (setValue? json path inner).map fun inner =>
              setMember key (.table origin inner) members
          else none
      | some (.value _) => none

def within? (change : List (String × Entry) → Option (List (String × Entry))) :
    List String → List (String × Entry) → Option (List (String × Entry))
  | [], members => change members
  | key :: path, members =>
      match members.lookup key with
      | some (.table origin inner) => (within? change path inner).map fun inner =>
          setMember key (.table origin inner) members
      | _ => none

end SimScript.Toml

import SimScript.Decimal.Layout
import SimScript.Json.Basic

/-!
# Writing JSON

The compact form has no blanks.  The spread form puts each item and each member
on a line of its own, indented by two blanks a level.
-/

namespace SimScript.Json

def hexChar (digit : Nat) : Char :=
  if digit < 10 then Char.ofNat ('0'.toNat + digit) else Char.ofNat ('a'.toNat + (digit - 10))

def escaped (char : Char) : List Char :=
  if char = '"' then ['\\', '"']
  else if char = '\\' then ['\\', '\\']
  else if char = '\n' then ['\\', 'n']
  else if char = '\r' then ['\\', 'r']
  else if char = '\t' then ['\\', 't']
  else if char.toNat = 8 then ['\\', 'b']
  else if char.toNat = 12 then ['\\', 'f']
  else if char.toNat < 0x20 then
    ['\\', 'u', '0', '0', hexChar (char.toNat / 16), hexChar (char.toNat % 16)]
  else [char]

def quoted (text : String) : String :=
  String.ofList ('"' :: (text.toList.flatMap escaped ++ ['"']))

def integerText : Int → String
  | .ofNat value => Decimal.digitText value
  | .negSucc value => "-" ++ Decimal.digitText (value + 1)

mutual

def compact : Json → String
  | .null => "null"
  | .bool value => if value then "true" else "false"
  | .integer value => integerText value
  | .decimal value => Decimal.scalarText value
  | .string value => quoted value
  | .array items => "[" ++ String.intercalate "," (compactItems items) ++ "]"
  | .object members => "\x7b" ++ String.intercalate "," (compactMembers members) ++ "\x7d"

def compactItems : List Json → List String
  | [] => []
  | item :: items => compact item :: compactItems items

def compactMembers : List (String × Json) → List String
  | [] => []
  | (key, value) :: members => (quoted key ++ ":" ++ compact value) :: compactMembers members

end

def indent (depth : Nat) : String :=
  String.ofList (List.replicate (2 * depth) ' ')

/-- Lines between an opening and a closing mark, or the two marks alone where there is no line. -/
def block (opening closing : String) (depth : Nat) (lines : List String) : String :=
  if lines.isEmpty then opening ++ closing
  else
    let body := String.intercalate ",\n" (lines.map fun line => indent (depth + 1) ++ line)
    opening ++ "\n" ++ body ++ "\n" ++ indent depth ++ closing

mutual

/-- The spread form of a value that stands `depth` levels deep. -/
def spread (depth : Nat) : Json → String
  | .array items => block "[" "]" depth (spreadItems (depth + 1) items)
  | .object members => block "\x7b" "\x7d" depth (spreadMembers (depth + 1) members)
  | json => compact json

def spreadItems (depth : Nat) : List Json → List String
  | [] => []
  | item :: items => spread depth item :: spreadItems depth items

def spreadMembers (depth : Nat) : List (String × Json) → List String
  | [] => []
  | (key, value) :: members =>
      (quoted key ++ ": " ++ spread depth value) :: spreadMembers depth members

end

end SimScript.Json

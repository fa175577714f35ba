/-!
# Strings in TOML

A text is written as it stands wherever that is possible: in one pair of double
quotes, else in one pair of single quotes, else between three of either.  Only a text
that has no such form is written with escapes.
-/

namespace SimScript.Toml

def capitalHex (digit : Nat) : Char :=
  if digit < 10 then Char.ofNat ('0'.toNat + digit) else Char.ofNat ('A'.toNat + (digit - 10))

def isControl (char : Char) : Bool :=
  char.toNat < 0x20 || char.toNat = 0x7f

inductive Quoting where
  /-- One pair of double quotes, with escapes. -/
  | basic
  /-- One pair of single quotes, without escapes. -/
  | literal
  /-- Three double quotes at each end, with escapes. -/
  | longBasic
  /-- Three single quotes at each end, without escapes. -/
  | longLiteral
  deriving DecidableEq

def hasTriple (quote : Char) : List Char → Bool
  | [] => false
  | char :: rest => [quote, quote, quote].isPrefixOf (char :: rest) || hasTriple quote rest

/-- The kind of string for a text: the first that needs no escapes, where a tab does not count as
needing one in any, or else one with escapes. -/
def Quoting.ofText (chars : List Char) : Quoting :=
  let broken := chars.contains '\n'
  let backslash := chars.contains '\\'
  let withEscapes := if broken then Quoting.longBasic else .basic
  if chars.any fun char => isControl char && char != '\t' && char != '\n' then withEscapes
  else if !broken && !backslash && !chars.contains '"' then .basic
  else if !broken && !chars.contains '\'' then .literal
  else if !backslash && !hasTriple '"' chars then .longBasic
  else if !hasTriple '\'' chars then .longLiteral
  else withEscapes

def escaped (char : Char) : List Char :=
  if char = '"' then ['\\', '"']
  else if char = '\\' then ['\\', '\\']
  else if char = '\t' then ['\\', 't']
  else if char = '\n' then ['\\', 'n']
  else if char = '\r' then ['\\', 'r']
  else if char.toNat = 8 then ['\\', 'b']
  else if char.toNat = 12 then ['\\', 'f']
  else if isControl char then
    ['\\', 'u', '0', '0', capitalHex (char.toNat / 16), capitalHex (char.toNat % 16)]
  else [char]

/-- The characters that stand for a text between three double quotes.  A line break stands for
itself, and so does a quote unless two stand before it; `seen` counts those. -/
def escapedLong : (seen : Nat) → List Char → List Char
  | _, [] => []
  | seen, char :: rest =>
      if char = '"' then
        if seen < 2 then '"' :: escapedLong (seen + 1) rest
        else escaped '"' ++ escapedLong 0 rest
      else if char = '\n' then '\n' :: escapedLong 0 rest
      else escaped char ++ escapedLong 0 rest

/-- A text as a TOML string.  A text with a line break begins on a line of its own. -/
def quoted (text : String) : String :=
  let chars := text.toList
  let opening := if chars.contains '\n' then "\n" else ""
  match Quoting.ofText chars with
  | .basic => "\"" ++ String.ofList (chars.flatMap escaped) ++ "\""
  | .literal => "'" ++ text ++ "'"
  | .longBasic => "\"\"\"" ++ opening ++ String.ofList (escapedLong 0 chars) ++ "\"\"\""
  | .longLiteral => "'''" ++ opening ++ text ++ "'''"

end SimScript.Toml

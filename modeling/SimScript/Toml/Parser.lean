import SimScript.Decimal.Reader
import SimScript.Json.Parser
import SimScript.Toml.Table

/-!
# Reading TOML

A settings file is a document of tables.  It is read into the JSON object that
means the same: a table is an object, and a key may be given once.  Read are
comments, headers of tables, dotted and quoted keys, whole numbers, decimals,
truth values, strings on one line and arrays.  Neither keys nor arrays go deeper
than a limit.
-/

namespace SimScript.Toml

def skipBlanks : List Char → List Char :=
  List.dropWhile fun char => char = ' ' || char = '\t'

/-- Whether a character may not stand in a line as it is: a control character other than a tab. -/
def isForbidden (char : Char) : Bool :=
  (char.toNat < 0x20 && char != '\t') || char.toNat = 0x7f

/-- Drops a comment, which ends before the first character that it may not hold. -/
def skipComment (chars : List Char) : List Char :=
  match chars with
  | '#' :: rest => rest.dropWhile fun char => !isForbidden char
  | _ => chars

/-- Drops blanks, comments and line ends, as between the items of an array. -/
def skipGaps : (fuel : Nat) → List Char → List Char
  | 0, chars => chars
  | fuel + 1, chars =>
      match skipComment (skipBlanks chars) with
      | '\n' :: rest => skipGaps fuel rest
      | '\r' :: '\n' :: rest => skipGaps fuel rest
      | rest => rest

/-- Whether a line ends here, after blanks and a comment; gives what follows the line. -/
def endOfLine? (chars : List Char) : Option (List Char) :=
  match skipComment (skipBlanks chars) with
  | [] => some []
  | '\n' :: rest => some rest
  | '\r' :: '\n' :: rest => some rest
  | _ => none

def isBare (char : Char) : Bool :=
  char.isAlphanum || char = '_' || char = '-'

def hexValue? (digits : List Char) : Option Nat :=
  digits.foldlM (fun value digit => (Json.hexDigit? digit).map fun held => value * 16 + held) 0

def charOf? (code : Nat) : Option Char :=
  if code.isValidChar then some (Char.ofNat code) else none

/-- Reads the rest of a string in double quotes; `read` holds its characters so far, the last one
first. -/
def basicRest? (read : List Char) : List Char → Option (String × List Char)
  | '"' :: rest => some (String.ofList read.reverse, rest)
  | '\\' :: 'u' :: a :: b :: c :: d :: rest =>
      match (hexValue? [a, b, c, d]).bind charOf? with
      | some char => basicRest? (char :: read) rest
      | none => none
  | '\\' :: 'U' :: a :: b :: c :: d :: e :: f :: g :: h :: rest =>
      match (hexValue? [a, b, c, d, e, f, g, h]).bind charOf? with
      | some char => basicRest? (char :: read) rest
      | none => none
  | '\\' :: letter :: rest =>
      match if letter = '/' then none else Json.escape? letter with
      | some char => basicRest? (char :: read) rest
      | none => none
  | char :: rest =>
      if isForbidden char then none else basicRest? (char :: read) rest
  | [] => none

/-- Reads the rest of a string in single quotes, which has no escapes. -/
def literalRest? (chars : List Char) : Option (String × List Char) :=
  let body := chars.takeWhile fun char => char != '\''
  match chars.dropWhile fun char => char != '\'' with
  | _ :: rest =>
      if body.any isForbidden then none else some (String.ofList body, rest)
  | [] => none

def keyPart? (chars : List Char) : Option (String × List Char) :=
  match chars with
  | '"' :: rest => basicRest? [] rest
  | '\'' :: rest => literalRest? rest
  | _ =>
      let part := chars.takeWhile isBare
      if part.isEmpty then none else some (String.ofList part, chars.dropWhile isBare)

def keyParts? : (fuel : Nat) → List Char → Option (List String × List Char)
  | 0, _ => none
  | fuel + 1, chars =>
      match keyPart? (skipBlanks chars) with
      | none => none
      | some (part, rest) =>
          match skipBlanks rest with
          | '.' :: rest => (keyParts? fuel rest).map fun (parts, rest) => (part :: parts, rest)
          | rest => some ([part], rest)

/-- The number of parts that a key, and of arrays within each other that a value, stays below. -/
def depthLimit : Nat := 80

def key? (chars : List Char) : Option (List String × List Char) :=
  (keyParts? (chars.length + 1) chars).filter fun (parts, _) => parts.length < depthLimit

/-- Takes the underscores out of a number; each has to stand between two digits. -/
def withoutUnderscores? (isDigit : Char → Bool) : List Char → Option (List Char)
  | [] => some []
  | '_' :: _ => none
  | digit :: '_' :: next :: rest =>
      if isDigit digit && isDigit next then
        (withoutUnderscores? isDigit (next :: rest)).map fun digits => digit :: digits
      else none
  | char :: rest => (withoutUnderscores? isDigit rest).map fun chars => char :: chars

/-- A whole number that fits 64 bits with a sign. -/
def bounded? (value : Int) : Option Json :=
  if -(Decimal.signedLimit : Int) ≤ value ∧ value < Decimal.signedLimit then some (.integer value)
  else none

def baseDigit? (base : Nat) (digit : Char) : Option Nat :=
  (Json.hexDigit? digit).filter fun value => value < base

def baseNumber? (base : Nat) (chars : List Char) : Option Json := do
  let digits ← withoutUnderscores? (fun char => (baseDigit? base char).isSome) chars
  if digits.isEmpty then none
  else
    let value ← digits.foldlM
      (fun value digit => (baseDigit? base digit).map fun held => value * base + held) 0
    bounded? value

def unsignedNumber? (negative : Bool) (chars : List Char) : Option Json :=
  let whole := chars.takeWhile Char.isDigit
  if whole.isEmpty || (whole.length > 1 && whole.head? == some '0') then none
  else if whole.length = chars.length then
    let value := Decimal.digitsValue whole
    bounded? (if negative then -(value : Int) else value)
  else
    let afterPoint := (chars.dropWhile Char.isDigit).drop 1
    let pointed := (chars.drop whole.length).head? == some '.'
    if pointed && !(afterPoint.head?.any Char.isDigit) then none
    else
      (Decimal.readUnsigned? chars).bind fun magnitude =>
        if negative then some (.decimal (-magnitude))
        else if magnitude.isInf then none
        else some (.decimal magnitude)

/-- Reads a decimal number, or one of the words for what is no number. -/
def decimalNumber? (chars : List Char) : Option Json :=
  let (negative, unsigned) :=
    match chars with
    | '-' :: rest => (true, rest)
    | '+' :: rest => (false, rest)
    | rest => (false, rest)
  match unsigned with
  | ['i', 'n', 'f'] => some (.decimal (if negative then -1 / 0 else 1 / 0))
  | ['n', 'a', 'n'] => some (.decimal (0 / 0))
  | _ => (withoutUnderscores? Char.isDigit unsigned).bind (unsignedNumber? negative)

def number? : List Char → Option Json
  | '0' :: 'x' :: digits => baseNumber? 16 digits
  | '0' :: 'o' :: digits => baseNumber? 8 digits
  | '0' :: 'b' :: digits => baseNumber? 2 digits
  | chars => decimalNumber? chars

def isWordChar (char : Char) : Bool :=
  char.isAlphanum || char = '_' || char = '-' || char = '+' || char = '.' || char = ':'

def word? (chars : List Char) : Option (Json × List Char) :=
  let word := chars.takeWhile isWordChar
  let rest := chars.dropWhile isWordChar
  if word = ['t', 'r', 'u', 'e'] then some (.bool true, rest)
  else if word = ['f', 'a', 'l', 's', 'e'] then some (.bool false, rest)
  else (number? word).map fun json => (json, rest)

mutual

/-- Reads a value; `depth` is how many arrays may still be opened within each other. -/
def value? : (fuel depth : Nat) → List Char → Option (Json × List Char)
  | 0, _, _ => none
  | fuel + 1, depth, chars =>
      match chars with
      | '"' :: rest => (basicRest? [] rest).map fun (text, rest) => (.string text, rest)
      | '\'' :: rest => (literalRest? rest).map fun (text, rest) => (.string text, rest)
      | '[' :: rest =>
          if depth = 0 then none
          else (items? fuel (depth - 1) rest).map fun (items, rest) => (.array items, rest)
      | _ => word? chars

def items? : (fuel depth : Nat) → List Char → Option (List Json × List Char)
  | 0, _, _ => none
  | fuel + 1, depth, chars =>
      match skipGaps chars.length chars with
      | ']' :: rest => some ([], rest)
      | start =>
          match value? fuel depth start with
          | none => none
          | some (item, rest) =>
              match skipGaps rest.length rest with
              | ',' :: rest =>
                  (items? fuel depth rest).map fun (items, rest) => (item :: items, rest)
              | ']' :: rest => some ([item], rest)
              | _ => none

end

/-- What was read so far: the members of the document, and the table that keys go to. -/
structure Progress where
  members : List (String × Entry) := []
  table : List String := []

/-- Reads one line: nothing, a header, or a key and its value. -/
def line? (progress : Progress) (chars : List Char) : Option (Progress × List Char) :=
  let start := skipBlanks chars
  match endOfLine? start with
  | some rest => some (progress, rest)
  | none =>
      match start with
      | '[' :: rest =>
          match key? rest with
          | some (path, ']' :: rest) =>
              match openTable? path progress.members, endOfLine? rest with
              | some members, some rest => some (⟨members, path⟩, rest)
              | _, _ => none
          | _ => none
      | _ =>
          match key? start with
          | some (path, '=' :: rest) =>
              match value? (rest.length + 1) (depthLimit - 1) (skipBlanks rest) with
              | some (value, rest) =>
                  match within? (setValue? value path) progress.table progress.members,
                    endOfLine? rest with
                  | some members, some rest => some ({ progress with members }, rest)
                  | _, _ => none
              | none => none
          | _ => none

def lines? : (fuel : Nat) → Progress → List Char → Option Progress
  | _, progress, [] => some progress
  | 0, _, _ => none
  | fuel + 1, progress, chars =>
      match line? progress chars with
      | some (progress, rest) => lines? fuel progress rest
      | none => none

def skipOrderMark (chars : List Char) : List Char :=
  match chars with
  | '\uFEFF' :: rest => rest
  | _ => chars

/-- Reads a document into the JSON object that means the same. -/
def parse? (text : String) : Option Json :=
  let chars := skipOrderMark text.toList
  (lines? (chars.length + 1) {} chars).map fun progress =>
    .object (membersToJson progress.members)

end SimScript.Toml

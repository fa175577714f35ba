import SimScript.Decimal.Scaled
import SimScript.Json.Basic

/-!
# Reading JSON

The reader is strict: no comments, no trailing commas, no control characters in
strings, no half of a surrogate pair, no number beyond the largest double, and
no nesting of 128 levels or more.  Whole numbers that do not fit 64 bits, and
minus zero, are read as scalars.  A scalar keeps the digits that fit 64 bits and is
scaled by a power of ten.
-/

namespace SimScript.Json

def skipSpace : List Char → List Char :=
  List.dropWhile fun char => char = ' ' || char = '\n' || char = '\t' || char = '\r'

/-- Drops `word`, which the text has to begin with. -/
def expect? (word : List Char) (chars : List Char) : Option (List Char) :=
  if word.isPrefixOf chars then some (chars.drop word.length) else none

def hexDigit? (char : Char) : Option Nat :=
  if '0' ≤ char ∧ char ≤ '9' then some (char.toNat - '0'.toNat)
  else if 'a' ≤ char ∧ char ≤ 'f' then some (char.toNat - 'a'.toNat + 10)
  else if 'A' ≤ char ∧ char ≤ 'F' then some (char.toNat - 'A'.toNat + 10)
  else none

def hexFour? (a b c d : Char) : Option Nat := do
  let a ← hexDigit? a
  let b ← hexDigit? b
  let c ← hexDigit? c
  let d ← hexDigit? d
  return a * 4096 + b * 256 + c * 16 + d

def escape? : Char → Option Char
  | '"' => some '"'
  | '\\' => some '\\'
  | '/' => some '/'
  | 'b' => some (Char.ofNat 8)
  | 'f' => some (Char.ofNat 12)
  | 'n' => some '\n'
  | 'r' => some '\r'
  | 't' => some '\t'
  | _ => none

def isHighSurrogate (unit : Nat) : Bool :=
  0xD800 ≤ unit && unit < 0xDC00

def isLowSurrogate (unit : Nat) : Bool :=
  0xDC00 ≤ unit && unit < 0xE000

/-- Reads the rest of a string, after its opening quote; `read` holds the characters so far, the
last one first. -/
def stringRest? (read : List Char) : List Char → Option (String × List Char)
  | '"' :: rest => some (String.ofList read.reverse, rest)
  | '\\' :: 'u' :: a :: b :: c :: d :: '\\' :: 'u' :: a' :: b' :: c' :: d' :: rest =>
      match hexFour? a b c d, hexFour? a' b' c' d' with
      | some unit, some unit' =>
          if isHighSurrogate unit then
            if isLowSurrogate unit' then
              let code := 0x10000 + (unit - 0xD800) * 0x400 + (unit' - 0xDC00)
              stringRest? (Char.ofNat code :: read) rest
            else none
          else if isLowSurrogate unit || isLowSurrogate unit' then none
          else stringRest? (Char.ofNat unit :: read) ('\\' :: 'u' :: a' :: b' :: c' :: d' :: rest)
      | _, _ => none
  | '\\' :: 'u' :: a :: b :: c :: d :: rest =>
      match hexFour? a b c d with
      | some unit =>
          if isHighSurrogate unit || isLowSurrogate unit then none
          else stringRest? (Char.ofNat unit :: read) rest
      | none => none
  | '\\' :: letter :: rest =>
      match escape? letter with
      | some char => stringRest? (char :: read) rest
      | none => none
  | char :: rest =>
      if char.toNat < 0x20 || char = '\\' then none else stringRest? (char :: read) rest
  | [] => none

def scalar? (negative : Bool) (decimal : Decimal.Scaled) : Option Json :=
  decimal.toFloat?.map fun magnitude => .decimal (if negative then -magnitude else magnitude)

/-- The whole number, or the scalar where the number does not fit 64 bits or is minus zero. -/
def wholeNumber? (negative : Bool) (digits : List Char) : Option Json :=
  let value := Decimal.digitsValue digits
  if negative && 0 < value && value ≤ Decimal.signedLimit then some (.integer (-(value : Int)))
  else if !negative && value < Decimal.countLimit then some (.integer value)
  else scalar? negative (.ofDigits digits [])

def number? (chars : List Char) : Option (Json × List Char) :=
  let (negative, unsigned) :=
    match chars with
    | '-' :: rest => (true, rest)
    | rest => (false, rest)
  let whole := unsigned.takeWhile Char.isDigit
  let afterWhole := unsigned.dropWhile Char.isDigit
  if whole.isEmpty || (whole.length > 1 && whole.head? == some '0') then none
  else
    let (fraction, afterFraction) :=
      match afterWhole with
      | '.' :: rest => (some (rest.takeWhile Char.isDigit), rest.dropWhile Char.isDigit)
      | rest => (none, rest)
    if fraction == some [] then none
    else
      let exponent : Option (Option Int × List Char) :=
        match afterFraction with
        | mark :: rest =>
            if mark = 'e' || mark = 'E' then
              let (sign, digits) :=
                match rest with
                | '+' :: digits => ([], digits)
                | '-' :: digits => (['-'], digits)
                | digits => ([], digits)
              let run := digits.takeWhile Char.isDigit
              (Decimal.readExponent? (sign ++ run)).map fun value =>
                (some value, digits.dropWhile Char.isDigit)
            else some (none, mark :: rest)
        | [] => some (none, [])
      match exponent with
      | none => none
      | some (power, rest) =>
          match fraction, power with
          | none, none =>
              (wholeNumber? negative whole).map fun json => (json, rest)
          | _, _ =>
              let unscaled := Decimal.Scaled.ofDigits whole (fraction.getD [])
              let decimal :=
                { unscaled with exponent := unscaled.exponent + power.getD 0 }
              (scalar? negative decimal).map fun json => (json, rest)

def depthLimit : Nat := 128

mutual

/-- Reads a value; `depth` is how many more levels may open, and `fuel` bounds the length. -/
def value? : (fuel depth : Nat) → List Char → Option (Json × List Char)
  | 0, _, _ => none
  | fuel + 1, depth, chars =>
      match skipSpace chars with
      | '"' :: rest => (stringRest? [] rest).map fun (text, rest) => (.string text, rest)
      | '[' :: rest =>
          if depth ≤ 1 then none
          else
            match skipSpace rest with
            | ']' :: rest => some (.array [], rest)
            | rest => (items? fuel (depth - 1) rest).map fun (items, rest) => (.array items, rest)
      | '\x7b' :: rest =>
          if depth ≤ 1 then none
          else
            match skipSpace rest with
            | '\x7d' :: rest => some (.object [], rest)
            | rest =>
                (members? fuel (depth - 1) rest).map fun (members, rest) =>
                  (ofMembers members, rest)
      | 'n' :: rest => (expect? ['u', 'l', 'l'] rest).map fun rest => (.null, rest)
      | 't' :: rest => (expect? ['r', 'u', 'e'] rest).map fun rest => (.bool true, rest)
      | 'f' :: rest => (expect? ['a', 'l', 's', 'e'] rest).map fun rest => (.bool false, rest)
      | rest => number? rest

def items? : (fuel depth : Nat) → List Char → Option (List Json × List Char)
  | 0, _, _ => none
  | fuel + 1, depth, chars =>
      match value? fuel depth chars with
      | none => none
      | some (item, rest) =>
          match skipSpace rest with
          | ',' :: rest => (items? fuel depth rest).map fun (items, rest) => (item :: items, rest)
          | ']' :: rest => some ([item], rest)
          | _ => none

def members? : (fuel depth : Nat) → List Char → Option (List (String × Json) × List Char)
  | 0, _, _ => none
  | fuel + 1, depth, chars =>
      match skipSpace chars with
      | '"' :: rest =>
          match stringRest? [] rest with
          | none => none
          | some (key, rest) =>
              match skipSpace rest with
              | ':' :: rest =>
                  match value? fuel depth rest with
                  | none => none
                  | some (value, rest) =>
                      match skipSpace rest with
                      | ',' :: rest =>
                          (members? fuel depth rest).map fun (members, rest) =>
                            ((key, value) :: members, rest)
                      | '\x7d' :: rest => some ([(key, value)], rest)
                      | _ => none
              | _ => none
      | _ => none

end

/-- Reads a document: one value with nothing but blanks around it. -/
def parse? (text : String) : Option Json :=
  let chars := text.toList
  match value? (chars.length + 1) depthLimit chars with
  | some (json, rest) => if (skipSpace rest).isEmpty then some json else none
  | none => none

end SimScript.Json

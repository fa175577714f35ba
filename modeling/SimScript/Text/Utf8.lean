/-!
# Text as bytes

UTF-8 in both directions over lists of bytes.  Writing is exact.  Reading
accepts any bytes: each longest run of bytes that begins like a character and
breaks off becomes one replacement character, as does each byte that begins none.
-/

namespace SimScript.Text

def encodeChar (char : Char) : List UInt8 :=
  let code := char.toNat
  if code < 0x80 then
    [code.toUInt8]
  else if code < 0x800 then
    [(0xC0 + code / 0x40).toUInt8, (0x80 + code % 0x40).toUInt8]
  else if code < 0x10000 then
    [(0xE0 + code / 0x1000).toUInt8, (0x80 + code / 0x40 % 0x40).toUInt8,
      (0x80 + code % 0x40).toUInt8]
  else
    [(0xF0 + code / 0x40000).toUInt8, (0x80 + code / 0x1000 % 0x40).toUInt8,
      (0x80 + code / 0x40 % 0x40).toUInt8, (0x80 + code % 0x40).toUInt8]

def encode (text : String) : List UInt8 :=
  text.toList.flatMap encodeChar

/-- What stands for bytes that are no character. -/
def replacement : Char := Char.ofNat 0xFFFD

def isTail (byte : UInt8) : Bool :=
  0x80 ≤ byte && byte ≤ 0xBF

def tailBits (byte : UInt8) : Nat :=
  byte.toNat % 0x40

/-- Whether `second` may follow `first` in a character of three bytes. -/
def opensThree (first second : UInt8) : Bool :=
  if first = 0xE0 then 0xA0 ≤ second && second ≤ 0xBF
  else if first = 0xED then 0x80 ≤ second && second ≤ 0x9F
  else 0xE1 ≤ first && first ≤ 0xEF && isTail second

def opensFour (first second : UInt8) : Bool :=
  if first = 0xF0 then 0x90 ≤ second && second ≤ 0xBF
  else if first = 0xF4 then 0x80 ≤ second && second ≤ 0x8F
  else 0xF1 ≤ first && first ≤ 0xF3 && isTail second

def decodeChars : List UInt8 → List Char
  | [] => []
  | first :: rest =>
      if first < 0x80 then Char.ofNat first.toNat :: decodeChars rest
      else
        match rest with
        | [] => [replacement]
        | second :: rest₂ =>
            if 0xC2 ≤ first && first ≤ 0xDF && isTail second then
              Char.ofNat (first.toNat % 0x20 * 0x40 + tailBits second) :: decodeChars rest₂
            else if opensThree first second then
              match rest₂ with
              | [] => [replacement]
              | third :: rest₃ =>
                  if isTail third then
                    Char.ofNat (first.toNat % 0x10 * 0x1000 + tailBits second * 0x40
                      + tailBits third) :: decodeChars rest₃
                  else replacement :: decodeChars (third :: rest₃)
            else if opensFour first second then
              match rest₂ with
              | [] => [replacement]
              | third :: rest₃ =>
                  if isTail third then
                    match rest₃ with
                    | [] => [replacement]
                    | fourth :: rest₄ =>
                        if isTail fourth then
                          Char.ofNat (first.toNat % 0x08 * 0x40000 + tailBits second * 0x1000
                            + tailBits third * 0x40 + tailBits fourth) :: decodeChars rest₄
                        else replacement :: decodeChars (fourth :: rest₄)
                  else replacement :: decodeChars (third :: rest₃)
            else replacement :: decodeChars (second :: rest₂)

def decode (bytes : List UInt8) : String :=
  String.ofList (decodeChars bytes)

end SimScript.Text

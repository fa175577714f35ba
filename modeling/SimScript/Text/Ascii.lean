/-!
# Comparing names without regard to case

Command names, config keys and class names are compared by their letters
`A`–`Z` and `a`–`z` only: every other character stands for itself.
-/

namespace SimScript.Text

/-- The text with `A`–`Z` turned into `a`–`z`. -/
def lower (text : String) : String :=
  String.ofList (text.toList.map Char.toLower)

def sameName (left right : String) : Bool :=
  lower left == lower right

theorem sameName_iff {left right : String} :
    sameName left right = true ↔ lower left = lower right := by
  simp [sameName]

theorem sameName_self (text : String) : sameName text text = true :=
  sameName_iff.mpr rfl

theorem sameName_comm (left right : String) : sameName left right = sameName right left := by
  simp only [sameName]
  exact Bool.beq_comm

def occursIn (fragment : List Char) : List Char → Bool
  | [] => fragment.isEmpty
  | char :: rest => fragment.isPrefixOf (char :: rest) || occursIn fragment rest

/-- The number of characters before the first occurrence of `fragment`. -/
def findFrom (fragment : List Char) : List Char → Nat → Option Nat
  | [], start => if fragment.isEmpty then some start else none
  | char :: rest, start =>
      if fragment.isPrefixOf (char :: rest) then some start else findFrom fragment rest (start + 1)

/-- The position, counted in characters, of the first occurrence of `fragment` in `text`. -/
def find? (text fragment : String) : Option Nat :=
  findFrom fragment.toList text.toList 0

def contains (text fragment : String) : Bool :=
  occursIn fragment.toList text.toList

def replaceChar (old : Char) (new : List Char) (text : String) : String :=
  String.ofList (text.toList.flatMap fun char => if char = old then new else [char])

end SimScript.Text

import SimScript.Report
import SimScript.Scalar.Arithmetic
import SimScript.Value.Basic

/-!
# Checks on operands

Commands look at the shape of their operands first.  A check that holds says
`true`; one that fails reports, and then says `false` in its weak form and aborts
in its strong form.
-/

namespace SimScript.Check

def size (items : List Value) (expected : Nat) (strength : Strength) : Report Bool :=
  if items.length = expected then pure true
  else
    Report.recover
      (Fault.expectedArraySizeMismatch (.exactly expected) items.length strength) false

def sizeBetween (items : List Value) (least most : Nat) (strength : Strength) : Report Bool :=
  if least ≤ items.length ∧ items.length ≤ most then pure true
  else
    Report.recover
      (Fault.expectedArraySizeMismatch (.between least most) items.length strength) false

def sizeAtLeast (items : List Value) (least : Nat) (strength : Strength) : Report Bool :=
  if least ≤ items.length then pure true
  else
    Report.recover (Fault.expectedMinimumArraySizeMismatch least items.length strength) false

def notEmpty (items : List Value) (strength : Strength) : Report Bool :=
  if items.isEmpty then Report.recover (Fault.expectedArrayToHaveElements strength) false
  else pure true

/-- The first element, counted from `position`, that its expected type does not accept.  Elements
and types are paired as far as both go. -/
def firstMismatch? (position : Nat) :
    List Value → List ValueType → Option (Nat × ValueType × ValueType)
  | item :: items, expected :: types =>
      if expected.accepts item.type then firstMismatch? (position + 1) items types
      else some (position, expected, item.type)
  | _, _ => none

def types (items : List Value) (types : List ValueType) (strength : Strength) : Report Bool :=
  match firstMismatch? 0 items types with
  | none => pure true
  | some (position, expected, got) =>
      Report.recover (Fault.expectedArrayTypeMismatch position [expected] got strength) false

def allOf (items : List Value) (type : ValueType) (strength : Strength) : Report Bool :=
  types items (List.replicate items.length type) strength

/-- Exactly `count` elements, all of one type. -/
def uniform (items : List Value) (type : ValueType) (count : Nat) (strength : Strength) :
    Report Bool := do
  if ← size items count strength then
    types items (List.replicate count type) strength
  else
    return false

/-- An element of one of some types; what is reported names the whole path to the element. -/
def subType (path : List Nat) (item : Value) (expected : List ValueType) (strength : Strength) :
    Report Bool :=
  if expected.any fun type => type.accepts item.type then pure true
  else
    Report.recover (Fault.expectedSubArrayTypeMismatch path expected item.type strength) false

/-- Elements of one type; what is reported names the path `outer` to the list and the place in
it. -/
def subTypes (outer : List Nat) (expected : List ValueType) (strength : Strength) (position : Nat) :
    List Value → Report Bool
  | [] => pure true
  | item :: items => do
      if ← subType (outer ++ [position]) item expected strength then
        subTypes outer expected strength (position + 1) items
      else
        return false

/-- An index at which `length` elements can be read.  An index just past the end is never more than
a warning. -/
def index (length : Nat) (index : Float) (strength : Strength) : Report (Option Nat) :=
  if index < 0 then Report.recover (Fault.negativeIndex strength) none
  else
    let position := Scalar.toCount index
    if position < length then pure (some position)
    else if position = length then
      Report.recover (Fault.indexEqualsRange length position) none
    else
      Report.recover (Fault.indexOutOfRange length position strength) none

end SimScript.Check

import SimScript.Command.Basic
import SimScript.Decimal.Reader
import SimScript.Store.Render

/-!
# Formatted text

`format` fills in the placeholders of a template.  A percent sign with digits names an
argument, two percent signs stand for one, and everything else stands for itself.
-/

namespace SimScript.Command

def digitsAt (template : Array Char) (position : Nat) : List Char :=
  if inside : position < template.size then
    if template[position].isDigit then template[position] :: digitsAt template (position + 1)
    else []
  else
    []
termination_by template.size - position

/-- The argument that digits name; the arguments are counted from 1. -/
def argumentOf? (args : List Value) (digits : List Char) : Option Value :=
  match Decimal.digitsValue digits with
  | 0 => none
  | number + 1 => args[number]?

/-- Fills in a template from a position on, where `filled` is what it came to before.  A placeholder
without an argument is reported and kept, as is a percent sign alone, which is reported with the
character after it; at the end of the template that is the sign itself. -/
def fillFrom (store : Store) (args : List Value) (template : Array Char) (position : Nat)
    (filled : String) : Report String :=
  if inside : position < template.size then
    if template[position] = '%' then
      let digits := digitsAt template (position + 1)
      if digits.isEmpty then
        if template[position + 1]? = some '%' then
          fillFrom store args template (position + 2) (filled.push '%')
        else do
          let next := template[position + 1]?.getD '%'
          Report.note (Fault.formatInvalidPlaceholder next position)
          fillFrom store args template (position + 1) (filled.push '%')
      else
        match argumentOf? args digits with
        | some arg =>
            fillFrom store args template (position + 1 + digits.length)
              (filled ++ store.display arg)
        | none => do
            Report.note (Fault.formatInvalidPlaceholder (digits.headD '0') position)
            fillFrom store args template (position + 1 + digits.length)
              (filled ++ "%" ++ String.ofList digits)
    else
      fillFrom store args template (position + 1) (filled.push template[position])
  else
    pure filled
termination_by template.size - position

def fillTemplate (store : Store) (template : String) (args : List Value) : Report String :=
  fillFrom store args template.toList.toArray 0 ""

/-- Fills the template that comes first with what comes after it. -/
def format (right : Value) : Query := fun exec => do
  let store := exec.world.store
  let items := store.itemsOf right
  if ← Check.notEmpty items .weak then
    if ← Check.types (items.take 1) [.string] .strong then
      reply (.text (← fillTemplate store (items.headD .nil).content (items.drop 1)))
    else
      nothing
  else
    Report.note Fault.returningEmptyString
    reply (.text "")

def formatting : CommandSet where
  unaries := [unary "format" .array format]

end SimScript.Command

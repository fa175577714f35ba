import SimScript.Decimal.Layout
import SimScript.Scalar.Arithmetic
import SimScript.Store.Basic
import SimScript.Text.Ascii

/-!
# Values as text

Every value has a display form.  The literal form differs in texts only: it puts
them in quotes and doubles the quotes inside.  Arrays show their elements in
literal form.
-/

namespace SimScript

/-- A number as scripts see it: whole numbers below `10 ^ 15` have no sign on zero, and all others
are written in full. -/
def numberText (number : Float) : String :=
  if Scalar.isWhole number && number.abs < 1e15 then
    if number == 0 then "0" else Decimal.scalarText number
  else Decimal.scalarText number

/-- A text in quotes, with the quotes inside doubled. -/
def quotedText (content : String) : String :=
  "\"" ++ Text.replaceChar '"' ['"', '"'] content ++ "\""

def flagText (flag : Bool) : String :=
  if flag then "true" else "false"

namespace Store

/-- The text of an object: its name if it has one, else its class and number. -/
def objectText (store : Store) (ref : ObjectRef) : String :=
  match ref.id, store.objects.get? ref with
  | some id, some data =>
      if data.varName.isEmpty then data.className ++ "#" ++ Decimal.digitText id.number
      else data.varName
  | _, _ => "<NULL-object>"

/-- The text of a value, in literal or in display form, following arrays down to `depth`. -/
def render (store : Store) : (depth : Nat) → (literal : Bool) → Value → String
  | _, _, .nil => "any"
  | _, _, .boolean flag => flagText flag
  | _, _, .scalar number => numberText number
  | _, literal, .text content => if literal then quotedText content else content
  | 0, _, .array _ => "[]"
  | depth + 1, _, .array cell =>
      "[" ++ String.intercalate "," ((store.items cell).toList.map (store.render depth true)) ++ "]"
  | _, _, .config ref => ref.render
  | _, _, .code id =>
      "\x7b<" ++ Decimal.digitText (store.block id).length ++ " instructions>\x7d"
  | _, _, .script none => "<NULL-script>"
  | _, _, .script (some id) => "<script " ++ Decimal.digitText id ++ ">"
  | _, _, .object ref => store.objectText ref
  | _, _, .side side => side.name
  | _, _, .ifPart condition => "<if " ++ flagText condition ++ ">"
  | _, _, .whilePart _ => "<while>"
  | _, _, .forPart spec => "<for " ++ spec.variableName ++ ">"

def display (store : Store) (value : Value) : String :=
  store.render store.depthBound false value

def literal (store : Store) (value : Value) : String :=
  store.render store.depthBound true value

def opText (store : Store) : Op → String
  | .push value => "push " ++ store.literal value
  | .getVariable name => "getVariable " ++ name
  | .assignTo name => "assignTo " ++ name
  | .assignToLocal name => "assignToLocal " ++ name
  | .makeArray count => "makeArray " ++ Decimal.digitText count
  | .callNular operator => "callNular " ++ operator
  | .callUnary operator => "callUnary " ++ operator
  | .callBinary operator => "callBinary " ++ operator
  | .endStatement => "endStatement"

end Store

end SimScript

import SimScript.Command.Basic
import SimScript.Store.Equality
import SimScript.Store.Render

/-!
# Arithmetic, comparison, logic

Operators on numbers, truth values and texts, and the conversions to text.
-/

namespace SimScript.Command

/-- Divides with `quotient`, unless the divisor is zero. -/
def divideBy (quotient : Float → Float → Float) (left right : Value) : Query := fun _ =>
  if right.number == 0 then failWith .zeroDivisor (.scalar 0)
  else reply (.scalar (quotient left.number right.number))

def arithmetic (name : String) (operator : Float → Float → Float) : Binary :=
  binary name .scalar .scalar fun left right _ =>
    reply (.scalar (operator left.number right.number))

def numeric (name : String) (function : Float → Float) : Unary :=
  unary name .scalar fun right _ => reply (.scalar (function right.number))

def comparison (name : String) (holds : Float → Float → Bool) : Binary :=
  binary name .scalar .scalar fun left right _ =>
    reply (.boolean (holds left.number right.number))

def connective (name : String) (operator : Bool → Bool → Bool) : Binary :=
  binary name .boolean .boolean fun left right _ =>
    reply (.boolean (operator left.flag right.flag))

def comparable : List ValueType :=
  [.scalar, .string, .boolean, .object, .group, .script, .config]

/-- An operator that asks whether two values of one type are equal, where the case of texts does
not count. -/
def equality (name : String) (answer : Bool → Bool) : List Binary :=
  comparable.map fun type =>
    binary name type type fun left right exec =>
      reply (.boolean (answer (exec.world.store.looselyEquals left right)))

/-- The elements of one array that are not in another. -/
def difference (left right : Value) : Query := fun exec =>
  let store := exec.world.store
  let removed := store.itemsOf right
  replyArray ((store.itemsOf left).filter fun item =>
    !removed.any fun other => store.equals other item)

def concatenation (left right : Value) : Query := fun exec =>
  replyArray (exec.world.store.itemsOf left ++ exec.world.store.itemsOf right)

def math : CommandSet where
  unaries :=
    [numeric "+" id,
      unary "+" .array fun right _ => pure (.copy right),
      numeric "-" fun number => -number,
      unary "!" .boolean fun right _ => reply (.boolean !right.flag),
      unary "not" .boolean fun right _ => reply (.boolean !right.flag),
      numeric "abs" Float.abs,
      numeric "floor" Float.floor,
      numeric "ceil" Float.ceil,
      numeric "round" Float.round,
      numeric "sqrt" Float.sqrt,
      unary "str" .any fun right exec => reply (.text (exec.world.store.literal right)),
      unary "typeName" .any fun right _ => reply (.text right.type.name)]
  binaries :=
    [arithmetic "+" fun left right => left + right,
      binary "+" .string .string fun left right _ => reply (.text (left.content ++ right.content)),
      binary "+" .array .array concatenation,
      arithmetic "-" fun left right => left - right,
      binary "-" .array .array difference,
      arithmetic "*" fun left right => left * right,
      binary "/" .scalar .scalar (divideBy fun left right => left / right),
      binary "%" .scalar .scalar (divideBy Scalar.remainder),
      binary "mod" .scalar .scalar (divideBy Scalar.remainder),
      arithmetic "^" Float.pow,
      arithmetic "min" Scalar.smaller,
      arithmetic "max" Scalar.larger]
      ++ equality "==" id
      ++ equality "!=" not
      ++ [comparison "<" fun left right => left < right,
        comparison ">" fun left right => left > right,
        comparison "<=" fun left right => left ≤ right,
        comparison ">=" fun left right => left ≥ right,
        binary "isEqualTo" .any .any fun left right exec =>
          reply (.boolean (exec.world.store.equals left right)),
        connective "&&" and,
        connective "and" and,
        connective "||" or,
        connective "or" or]

end SimScript.Command

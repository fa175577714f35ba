import SimScript.Store.Basic
import SimScript.Text.Ascii

/-!
# Equality of values

Arrays are equal when they are one cell or when their elements are equal one by
one.  Code is equal only to itself, and the parts of control structures are equal
to nothing.
-/

namespace SimScript.Store

/-- Whether two values are equal, following arrays down to `depth`. -/
def equalsTo (store : Store) : (depth : Nat) → Value → Value → Bool
  | _, .nil, .nil => true
  | _, .boolean left, .boolean right => left == right
  | _, .scalar left, .scalar right => left == right
  | _, .text left, .text right => left == right
  | 0, .array left, .array right => left == right
  | depth + 1, .array left, .array right =>
      left == right
        || ((store.items left).size == (store.items right).size
          && ((store.items left).toList.zip (store.items right).toList).all
            fun pair => store.equalsTo depth pair.1 pair.2)
  | _, .config left, .config right => left == right
  | _, .code left, .code right => left == right
  | _, .script left, .script right => left == right
  | _, .object left, .object right => store.objects.same left right
  | _, .side left, .side right => left == right
  | _, _, _ => false

def equals (store : Store) (left right : Value) : Bool :=
  store.equalsTo store.depthBound left right

/-- Equality as the operator `==` has it: texts are compared without regard to case. -/
def looselyEquals (store : Store) (left right : Value) : Bool :=
  match left, right with
  | .text left, .text right => Text.sameName left right
  | _, _ => store.equals left right

end SimScript.Store

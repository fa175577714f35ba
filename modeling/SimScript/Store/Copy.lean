import SimScript.Store.Basic

/-!
# Deep copies

A deep copy has new cells for the array and for all arrays inside it; everything
else is taken as it is.
-/

namespace SimScript.Store

/-- Copies a value, following arrays down to `depth`. -/
def copyTo : (depth : Nat) → Value → StateM Store Value
  | 0, value => pure value
  | depth + 1, .array cell => do
      let items := (← get).items cell
      let copies ← items.toList.mapM (copyTo depth)
      modifyGet fun store => store.newArray copies.toArray
  | _ + 1, value => pure value

def copy (store : Store) (value : Value) : Value × Store :=
  copyTo store.depthBound value store

end SimScript.Store

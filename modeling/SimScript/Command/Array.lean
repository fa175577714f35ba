import SimScript.Command.Basic
import SimScript.Store.Equality
import SimScript.Store.Reach

/-!
# Commands on arrays

Reading past the end of an array aborts the statement; removing and resizing are
lenient, and leave the array as it is where they make no sense.  No command lets an
array contain itself.
-/

namespace SimScript.Command

def selectIndex (left : Value) (index : Float) : Query := fun exec => do
  let items := exec.world.store.itemsOf left
  match ← Check.index items.length index .strong with
  | some position => reply (argument items position)
  | none => nothing

/-- The elements from a start, as many as are asked for or all that are left. -/
def selectRange (left right : Value) : Query := fun exec => do
  let store := exec.world.store
  let range := store.itemsOf right
  if !(← Check.sizeBetween range 1 2 .strong) then
    nothing
  else if !(← Check.types range [.scalar, .scalar] .strong) then
    nothing
  else
    let first := (argument range 0).number
    if first < 0 then
      fail (.negativeIndex .strong)
    else
      let source := store.itemsOf left
      let start := Scalar.toCount first
      if start > source.length then
        Report.raise (Fault.startIndexExceedsToIndex start source.length .weak)
        Report.note Fault.returningEmptyArray
        replyArray []
      else
        match range[1]? with
        | none => replyArray (source.drop start)
        | some count =>
            if count.number < 0 then
              fail (.negativeSize .strong)
            else
              replyArray ((source.drop start).take (Scalar.toCount count.number))

/-- Whether an array may grow to a size; where it may not, the statement is aborted. -/
def withinLimit (exec : Execution) (size : Nat) : Report Bool :=
  if size ≤ exec.world.settings.maxArraySize then pure true
  else
    Report.recover (Fault.indexOutOfRange exec.world.settings.maxArraySize size .strong) false

/-- An array cut or filled up with nil to a size. -/
def resized (items : Array Value) (size : Nat) : Array Value :=
  items.take size ++ Array.replicate (size - items.size) Value.nil

def resize (left right : Value) : Command := do
  match left with
  | .array cell =>
      if right.number < 0 then
        Report.raise (Fault.negativeSize .weak)
        return .nil
      else
        let size := Scalar.toCount right.number
        if ← withinLimit (← get) size then
          rewrite cell fun items => resized items size
          return .nil
        else
          return .nil
  | _ => return .nil

/-- Stores a value at an index; past the end, the array is filled up with nil first. -/
def assignIndex (left right : Value) : Command := do
  let store := (← get).world.store
  let args := store.itemsOf right
  match left, args with
  | .array cell, [index, value] =>
      if !(← Check.types args [.scalar, .any] .strong) then
        return .nil
      else if index.number < 0 then
        Report.raise (Fault.negativeIndex .strong)
        return .nil
      else if store.wouldRecurse cell value then
        Report.raise Fault.arrayRecursion
        return .nil
      else
        let position := Scalar.toCount index.number
        let needed := min (position + 1) Scalar.maxCount
        if position < (store.items cell).size then
          rewrite cell fun items => items.setIfInBounds position value
          return .nil
        else if ← withinLimit (← get) needed then
          rewrite cell fun items => resized items (position + 1)
          rewrite cell fun items => items.setIfInBounds position value
          return .nil
        else
          return .nil
  | _, _ => do
      let _ ← Check.size args 2 .strong
      return .nil

/-- Adds a value at the end, and replies its index. -/
def pushBack (left right : Value) : Command := do
  let store := (← get).world.store
  match left with
  | .array cell =>
      if store.wouldRecurse cell right then
        Report.raise Fault.arrayRecursion
        return .nil
      else
        rewrite cell fun items => items.push right
        return .value (.ofCount (((← get).world.store.items cell).size - 1))
  | _ => return .nil

def append (left right : Value) : Command := do
  let store := (← get).world.store
  match left with
  | .array cell =>
      let incoming := store.itemsOf right
      if incoming.any fun value => store.wouldRecurse cell value then
        Report.raise Fault.arrayRecursion
        return .nil
      else
        rewrite cell fun items => items ++ incoming.toArray
        return .nil
  | _ => return .nil

def deleteAt (left right : Value) : Command := do
  match left with
  | .array cell =>
      let items := (← get).world.store.items cell
      match ← Check.index items.size right.number .weak with
      | some position =>
          rewrite cell fun items => (items.toList.eraseIdx position).toArray
          return .value ((items[position]?).getD .nil)
      | none =>
          Report.note Fault.returningNil
          return .nil
  | _ => return .nil

def reverse (right : Value) : Command := do
  match right with
  | .array cell =>
      rewrite cell Array.reverse
      return .nil
  | _ => return .nil

/-- The number that wins against all others. -/
def selectExtreme (winner : Float → Float → Float) (right : Value) : Query := fun exec => do
  let items := exec.world.store.itemsOf right
  if !(← Check.notEmpty items .weak) then
    Report.note Fault.returningNil
    nothing
  else if !(← Check.allOf items .scalar .weak) then
    Report.note Fault.returningNil
    nothing
  else
    let numbers := items.map Value.number
    reply (.scalar (numbers.tail.foldl winner (numbers.headD 0)))

def findItem (left right : Value) : Query := fun exec =>
  reply (countOrMinusOne
    ((exec.world.store.itemsOf left).findIdx? fun item => exec.world.store.equals item right))

def array : CommandSet where
  unaries :=
    [unary "count" .array fun right exec =>
        reply (.ofCount (exec.world.store.itemsOf right).length),
      unary "count" .string fun right _ => reply (.ofCount right.content.length),
      ⟨"reverse", .array, reverse⟩,
      unary "selectMax" .array (selectExtreme Scalar.larger),
      unary "selectMin" .array (selectExtreme Scalar.smaller)]
  binaries :=
    [binary "select" .array .scalar fun left right => selectIndex left right.number,
      binary "select" .array .boolean fun left right =>
        selectIndex left (if right.flag then 1 else 0),
      binary "select" .array .array selectRange,
      ⟨"resize", .array, .scalar, resize⟩,
      ⟨"set", .array, .array, assignIndex⟩,
      ⟨"pushBack", .array, .any, pushBack⟩,
      ⟨"append", .array, .array, append⟩,
      ⟨"deleteAt", .array, .scalar, deleteAt⟩,
      binary "find" .array .any findItem,
      binary "find" .string .string fun left right _ =>
        reply (countOrMinusOne (Text.find? left.content right.content)),
      binary "in" .any .array fun left right exec =>
        reply (.boolean ((exec.world.store.itemsOf right).any fun item =>
          exec.world.store.equals item left))]

end SimScript.Command

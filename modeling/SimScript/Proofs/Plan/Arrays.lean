import SimScript.Command.Array
import SimScript.Proofs.Plan.Basic

/-!
# Plans of the commands on arrays

The commands that change an array follow plans that write it once.
-/

namespace SimScript

namespace Plan

open Command (withinLimit resized)

def resize (left right : Value) : Plan := fun exec => do
  match left with
  | .array cell =>
      if right.number < 0 then
        fail (.negativeSize .weak)
      else
        let size := Scalar.toCount right.number
        if ← withinLimit exec size then
          change (.write cell (resized (exec.world.store.items cell) size))
        else
          nothing
  | _ => nothing

def assignIndex (left right : Value) : Plan := fun exec => do
  let store := exec.world.store
  let args := store.itemsOf right
  match left, args with
  | .array cell, [index, value] =>
      if !(← Check.types args [.scalar, .any] .strong) then
        nothing
      else if index.number < 0 then
        fail (.negativeIndex .strong)
      else if store.wouldRecurse cell value then
        fail .arrayRecursion
      else
        let items := store.items cell
        let position := Scalar.toCount index.number
        let needed := min (position + 1) Scalar.maxCount
        if position < items.size then
          change (.write cell (items.setIfInBounds position value))
        else if ← withinLimit exec needed then
          change (.write cell ((resized items (position + 1)).setIfInBounds position value))
        else
          nothing
  | _, _ => do
      let _ ← Check.size args 2 .strong
      nothing

def pushBack (left right : Value) : Plan := fun exec =>
  let store := exec.world.store
  match left with
  | .array cell =>
      if store.wouldRecurse cell right then fail .arrayRecursion
      else
        let items := store.items cell
        pure (.answer (.write cell (items.push right)) (.value (.ofCount items.size)))
  | _ => nothing

def append (left right : Value) : Plan := fun exec =>
  let store := exec.world.store
  match left with
  | .array cell =>
      let incoming := store.itemsOf right
      if incoming.any fun value => store.wouldRecurse cell value then fail .arrayRecursion
      else change (.write cell (store.items cell ++ incoming.toArray))
  | _ => nothing

def deleteAt (left right : Value) : Plan := fun exec => do
  match left with
  | .array cell =>
      let items := exec.world.store.items cell
      match ← Check.index items.size right.number .weak with
      | some position =>
          return .answer (.write cell (items.toList.eraseIdx position).toArray)
            (.value ((items[position]?).getD .nil))
      | none =>
          Report.note Fault.returningNil
          nothing
  | _ => nothing

def reverse (right : Value) : Plan := fun exec =>
  match right with
  | .array cell => change (.write cell (exec.world.store.items cell).reverse)
  | _ => nothing

end Plan

theorem Store.write_twice (store : Store) (cell : CellId)
    (first second : Array Value → Array Value) :
    let once := store.write cell (first (store.items cell))
    once.write cell (second (once.items cell)) =
      store.write cell (second (first (store.items cell))) := by
  dsimp only
  by_cases inside : cell < store.cells.size
  · simp [write, items, inside, Array.setIfInBounds_setIfInBounds]
  · have outside : store.cells.size ≤ cell := Nat.le_of_not_lt inside
    simp [write, Array.setIfInBounds_eq_of_size_le outside]

namespace Command

variable {exec : Execution}

theorem Meets.fail (fault : Fault) :
    Meets exec (do Report.raise fault; return .nil) (Plan.fail fault) :=
  .check fun _ => .done fun _ => rfl

theorem Meets.nothing : Meets exec (return .nil) Plan.nothing :=
  .done fun _ => rfl

theorem resize_follows (left right : Value) :
    (resize left right).Follows (.plan (Plan.resize left right)) := by
  refine follows_of_meets fun exec => ?_
  cases left with
  | array cell =>
      refine .ite (fun _ => .fail _) fun _ => .look (.check fun fits => ?_)
      exact .ite (fun _ => .done fun _ => rfl) fun _ => .nothing
  | _ => exact .nothing

theorem assignIndex_follows (left right : Value) :
    (assignIndex left right).Follows (.plan (Plan.assignIndex left right)) := by
  refine follows_of_meets fun exec => .look ?_
  unfold Plan.assignIndex
  dsimp only
  generalize exec.world.store.itemsOf right = args
  have other : Meets exec (do let _ ← Check.size args 2 .strong; return .nil)
      (do let _ ← Check.size args 2 .strong; Plan.nothing) := .check fun _ => .nothing
  cases left with
  | array cell =>
      rcases args with _ | ⟨index, _ | ⟨value, _ | ⟨_, _⟩⟩⟩
      case cons.cons.nil =>
        refine .check fun typed => ?_
        refine .ite (fun _ => .nothing) fun _ => .ite (fun _ => .fail _) fun _ => ?_
        refine .ite (fun _ => .fail _) fun _ => .ite (fun _ => .done fun _ => rfl) fun _ => ?_
        refine .look (.check fun fits => ?_)
        refine .ite (fun _ => .done fun _ => ?_) fun _ => .nothing
        have twice := exec.world.store.write_twice cell
          (fun items => resized items (Scalar.toCount index.number + 1))
          fun items => items.setIfInBounds (Scalar.toCount index.number) value
        exact congrArg (fun store => ((⟨.ok .nil, []⟩ : Checked Answer), exec.withStore store))
          twice
      all_goals exact other
  | _ => exact other

theorem pushBack_follows (left right : Value) :
    (pushBack left right).Follows (.plan (Plan.pushBack left right)) := by
  refine follows_of_meets fun exec => .look ?_
  cases left with
  | array cell =>
      refine .ite (fun _ => .fail _) fun _ => .done fun _ => ?_
      have size : ((exec.world.store.write cell ((exec.world.store.items cell).push right)).items
          cell).size - 1 = (exec.world.store.items cell).size := by
        by_cases inside : cell < exec.world.store.cells.size
        · simp [Store.write, Store.items, inside]
        · simp [Store.write, Store.items, inside]
      exact congrArg (fun count => ((⟨.ok (.value (.ofCount count)), []⟩ : Checked Answer), _)) size
  | _ => exact .nothing

theorem append_follows (left right : Value) :
    (append left right).Follows (.plan (Plan.append left right)) := by
  refine follows_of_meets fun exec => .look ?_
  cases left with
  | array cell => exact .ite (fun _ => .fail _) fun _ => .done fun _ => rfl
  | _ => exact .nothing

theorem deleteAt_follows (left right : Value) :
    (deleteAt left right).Follows (.plan (Plan.deleteAt left right)) := by
  refine follows_of_meets fun exec => ?_
  cases left with
  | array cell =>
      refine .look (.check fun found => ?_)
      cases found with
      | some position => exact .done fun _ => rfl
      | none => exact .check fun _ => .nothing
  | _ => exact .nothing

theorem reverse_follows (right : Value) :
    (reverse right).Follows (.plan (Plan.reverse right)) := by
  refine follows_of_meets fun exec => ?_
  cases right with
  | array cell => exact .done fun _ => rfl
  | _ => exact .nothing

end Command

end SimScript

import SimScript.Command.Crew
import SimScript.Proofs.Plan.Arrays

/-!
# Plans of the commands on objects

The commands that change objects look at all their operands before they change anything.
Only the command that moves all elements of an array looks at each element when its turn
comes, and so makes a plan for each.
-/

namespace SimScript

namespace Plan

open Command

def setData (value : Value) (update : ObjectData → ObjectData) : Plan := fun exec => do
  if ← expectLive exec value .strong then
    change (.updateObjects [(value.objectRef, update)])
  else
    nothing

def setVector (set : ObjectData → Vec3 → ObjectData) (left right : Value) : Plan := fun exec => do
  if ← expectLive exec left .weak then
    match ← readTriple exec.world.store right with
    | none => nothing
    | some vector => change (.updateObjects [(left.objectRef, fun data => set data vector)])
  else
    nothing

def moveUnit (left right : Value) : Plan := fun exec => do
  if ← expectLive exec left .strong then
    if left.objectRef.kind != .unit then
      fail (.expectedUnit .strong)
    else
      match ← readPoint exec.world.store right with
      | none => nothing
      | some position =>
          change (.updateObjects [(left.objectRef, fun data => { data with position })])
  else
    nothing

def setCaptive (left right : Value) : Plan := fun exec => do
  if ← expectUnit exec left then
    change (.updateObjects [(left.objectRef, fun data => { data with captive := right.flag })])
  else
    nothing

def board (seat : Option Seat) (left right : Value) : Plan := fun exec => do
  let table := objectsOf exec
  let unit := left.objectRef
  let vehicle := right.objectRef
  if !(← expectBoarding exec left right) then
    nothing
  else if seat.any fun seat => isTaken table vehicle seat unit then
    nothing
  else
    let leaving := (table.vehicleOf? unit).toList.map fun previous =>
      (previous, table.withoutOccupant unit)
    change (.updateObjects (leaving ++ [(vehicle, takePlace seat unit)]))

/-- Creates an object of a class at a point; `answer` tells what is replied. -/
def create (exec : Execution) (kind : ObjectKind) (className : String) (position : Vec3)
    (group : Option ObjectRef) (answer : ObjectRef → Value) : Report Effect := do
  if ← checkClass exec className then
    return .answer (.createObject kind { className, position } group)
      (.value (answer ((objectsOf exec).next kind)))
  else
    nothing

def createVehicle (left right : Value) : Plan := fun exec => do
  match ← readTriple exec.world.store right with
  | none => nothing
  | some position => create exec .vehicle left.content position none objectValue

def createVehicleFrom (right : Value) : Plan := fun exec => do
  let args := exec.world.store.itemsOf right
  if !(← Check.sizeBetween args 4 5 .strong) then
    nothing
  else if !(← Check.types args placementTypes .strong) then
    nothing
  else
    match ← readNestedTriple exec.world.store 1 (argument args 1) with
    | none => nothing
    | some position =>
        create exec .vehicle (argument args 0).content position none objectValue

def createMember (left right : Value) : Plan := fun exec => do
  if ← expectLive exec left .strong then
    let args := exec.world.store.itemsOf right
    if !(← Check.size args 5 .strong) then
      nothing
    else if !(← Check.types args placementTypes .strong) then
      nothing
    else
      match ← readNestedTriple exec.world.store 1 (argument args 1) with
      | none => nothing
      | some position =>
          create exec .unit (argument args 0).content position (some left.objectRef) objectValue
  else
    nothing

def createUnit (left right : Value) : Plan := fun exec => do
  let args := exec.world.store.itemsOf right
  if !(← Check.sizeAtLeast args 2 .strong) then
    nothing
  else if !(← Check.types args [.array, .group, .string, .scalar, .string] .strong) then
    nothing
  else
    match ← readNestedTriple exec.world.store 0 (argument args 0) with
    | none => nothing
    | some position =>
        if ← expectLive exec (argument args 1) .strong then
          create exec .unit left.content position (some (argument args 1).objectRef) fun _ => .nil
        else
          nothing

def createGroup (right : Value) : Plan := fun exec =>
  let data : ObjectData := { className := "Group" }
  let sided : ObjectData :=
    match right with
    | .side side => { data with side }
    | _ => data
  pure (.answer (.createObject .group sided none)
    (.value (.object ((objectsOf exec).next .group))))

def deleteVehicle (right : Value) : Plan := fun exec => do
  if ← expectLive exec right .weak then change (.deleteObject right.objectRef) else nothing

def deleteGroup (right : Value) : Plan := fun exec => do
  if ← expectLive exec right .weak then
    if (dataOf? exec right).any fun data => !(members (objectsOf exec) data).isEmpty then
      fail (.groupNotEmpty (exec.world.store.display (.object right.objectRef)))
    else
      change (.deleteObject right.objectRef)
  else
    nothing

end Plan

def Design.moveUnits (left right : Value) : Design :=
  .series fun exec => do
    let units := exec.world.store.itemsOf left
    if ← Check.subTypes [] [.object] .strong 0 units then
      return units.map fun unit => Plan.moveUnit unit right
    else
      return []

namespace Command

variable {exec : Execution}

theorem setData_follows (value : Value) (update : ObjectData → ObjectData) :
    (setData value update).Follows (.plan (Plan.setData value update)) := by
  refine follows_of_meets fun exec => .look (.check fun live => ?_)
  exact .ite (fun _ => .done fun _ => rfl) fun _ => .nothing

theorem setVector_follows (set : ObjectData → Vec3 → ObjectData) (left right : Value) :
    (setVector set left right).Follows (.plan (Plan.setVector set left right)) := by
  refine follows_of_meets fun exec => .look (.check fun live => ?_)
  refine .ite (fun _ => .look (.check fun read => ?_)) fun _ => .nothing
  cases read with
  | some vector => exact .done fun _ => rfl
  | none => exact .nothing

theorem moveUnit_meets (left right : Value) :
    Meets exec (moveUnit left right) (Plan.moveUnit left right exec) := by
  refine .look (.check fun live => ?_)
  refine .ite (fun _ => .ite (fun _ => .fail _) fun _ => .look (.check fun read => ?_))
    fun _ => .nothing
  cases read with
  | some position => exact .done fun _ => rfl
  | none => exact .nothing

theorem moveUnit_follows (left right : Value) :
    (moveUnit left right).Follows (.plan (Plan.moveUnit left right)) :=
  follows_of_meets fun _ => moveUnit_meets left right

theorem setCaptive_follows (left right : Value) :
    (setCaptive left right).Follows (.plan (Plan.setCaptive left right)) := by
  refine follows_of_meets fun exec => .look (.check fun expected => ?_)
  exact .ite (fun _ => .done fun _ => rfl) fun _ => .nothing

theorem leaveVehicle_apply (unit : ObjectRef) (site : Site) :
    leaveVehicle unit site exec = (⟨.ok (), []⟩, (Change.updateObjects
      (((objectsOf exec).vehicleOf? unit).toList.map fun previous =>
        (previous, (objectsOf exec).withoutOccupant unit))).perform exec) := by
  rw [leaveVehicle, Work.bind_of_silent (Work.get_apply site exec)]
  cases (objectsOf exec).vehicleOf? unit <;> rfl

theorem board_follows (seat : Option Seat) (left right : Value) :
    (board seat left right).Follows (.plan (Plan.board seat left right)) := by
  refine follows_of_meets fun exec => .look (.check fun expected => ?_)
  refine .ite (fun _ => .nothing) fun _ => .ite (fun _ => .nothing) fun _ => .done fun site => ?_
  rw [Work.bind_of_silent (leaveVehicle_apply _ _)]
  simp only [Effect.changed, Change.perform, Change.objects, List.foldl_append]
  rfl

theorem createAt_meets (className : String) (position : Vec3) :
    Meets exec (createAt className position)
      (Plan.create exec .vehicle className position none objectValue) := by
  refine .look (.check fun known => ?_)
  exact .ite (fun _ => .done fun _ => rfl) fun _ => .nothing

theorem recruit_meets (group : ObjectRef) (className : String) (position : Vec3)
    (answer : ObjectRef → Value) :
    Meets exec (recruit group className position answer)
      (Plan.create exec .unit className position (some group) answer) := by
  refine .look (.check fun known => ?_)
  exact .ite (fun _ => .done fun _ => rfl) fun _ => .nothing

theorem createVehicle_follows (left right : Value) :
    (createVehicle left right).Follows (.plan (Plan.createVehicle left right)) := by
  refine follows_of_meets fun exec => .look (.check fun read => ?_)
  cases read with
  | none => exact .nothing
  | some position => exact createAt_meets _ _

theorem createVehicleFrom_follows (right : Value) :
    (createVehicleFrom right).Follows (.plan (Plan.createVehicleFrom right)) := by
  refine follows_of_meets fun exec => .look (.check fun sized => ?_)
  refine .ite (fun _ => .nothing) fun _ => .check fun typed => ?_
  refine .ite (fun _ => .nothing) fun _ => .check fun read => ?_
  cases read with
  | none => exact .nothing
  | some position => exact createAt_meets _ _

theorem createMember_follows (left right : Value) :
    (createMember left right).Follows (.plan (Plan.createMember left right)) := by
  refine follows_of_meets fun exec => .look (.check fun live => ?_)
  refine .ite (fun _ => .look (.check fun sized => ?_)) fun _ => .nothing
  refine .ite (fun _ => .nothing) fun _ => .check fun typed => ?_
  refine .ite (fun _ => .nothing) fun _ => .check fun read => ?_
  cases read with
  | none => exact .nothing
  | some position => exact recruit_meets _ _ _ _

theorem createUnit_follows (left right : Value) :
    (createUnit left right).Follows (.plan (Plan.createUnit left right)) := by
  refine follows_of_meets fun exec => .look (.check fun sized => ?_)
  refine .ite (fun _ => .nothing) fun _ => .check fun typed => ?_
  refine .ite (fun _ => .nothing) fun _ => .check fun read => ?_
  cases read with
  | none => exact .nothing
  | some position =>
      refine .look (.check fun live => ?_)
      exact .ite (fun _ => recruit_meets _ _ _ _) fun _ => .nothing

theorem createGroup_follows (right : Value) :
    (createGroup right).Follows (.plan (Plan.createGroup right)) :=
  follows_of_meets fun _ => .done fun _ => rfl

theorem deleteVehicle_follows (right : Value) :
    (deleteVehicle right).Follows (.plan (Plan.deleteVehicle right)) := by
  refine follows_of_meets fun exec => .look (.check fun live => ?_)
  exact .ite (fun _ => .done fun _ => rfl) fun _ => .nothing

theorem deleteGroup_follows (right : Value) :
    (deleteGroup right).Follows (.plan (Plan.deleteGroup right)) := by
  refine follows_of_meets fun exec => .look (.check fun live => ?_)
  refine .ite (fun _ => .look ?_) fun _ => .nothing
  exact .ite (fun _ => .fail _) fun _ => .done fun _ => rfl

end Command

end SimScript

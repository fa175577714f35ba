import SimScript.Command.Object

/-!
# Vehicles and their crews, groups and their members

Who sits where, who belongs to which group, and the creation and deletion of
objects.
-/

namespace SimScript.Command

def crew (right : Value) : Query :=
  withLive right fun ref data exec => do
    if ref.kind != .vehicle then
      Report.raise (Fault.expectedVehicle .weak)
      Report.note Fault.returningEmptyArray
      replyArray []
    else
      replyArray (((objectsOf exec).occupants data).map objectValue)

/-- Who sits in a seat; what is no vehicle has no seats and replies itself. -/
def occupant (seat : Seat) (right : Value) : Query :=
  withLive right fun ref data exec =>
    if ref.kind != .vehicle then failWith (.expectedVehicle .weak) (.object ref)
    else
      let live := (data.seat seat).filter fun other => !(objectsOf exec).isNull other
      reply (.object (live.getD { kind := .unit }))

def vehicleOr (fallback : ObjectRef → ObjectRef) (right : Value) : Query :=
  withLive right fun ref _ exec =>
    reply (.object (((objectsOf exec).vehicleOf? ref).getD (fallback ref)))

/-- Whether a value is a live object of a kind; null aborts the statement, and another kind is
reported by `unexpected`. -/
def expectKind (exec : Execution) (value : Value) (kind : ObjectKind) (unexpected : Fault) :
    Report Bool := do
  if (dataOf? exec value).isNone then
    Report.recover (Fault.expectedNonNullValue .strong) false
  else if value.objectRef.kind != kind then
    Report.raise unexpected
    Report.note Fault.returningFalse
    return false
  else
    return true

def expectUnit (exec : Execution) (value : Value) : Report Bool :=
  expectKind exec value .unit (.expectedUnit .weak)

def expectBoarding (exec : Execution) (unit vehicle : Value) : Report Bool := do
  if ← expectUnit exec unit then
    expectKind exec vehicle .vehicle (.expectedVehicle .weak)
  else
    return false

def captive (right : Value) : Query := fun exec => do
  if ← expectUnit exec right then
    reply (.boolean ((dataOf? exec right).any fun data => data.captive))
  else
    reply (.boolean false)

def setCaptive (left right : Value) : Command := do
  if ← expectUnit (← get) left then
    updateObject left fun data => { data with captive := right.flag }
    return .nil
  else
    return .nil

/-- Whether a seat is taken by someone else. -/
def isTaken (table : ObjectTable) (vehicle : ObjectRef) (seat : Seat) (unit : ObjectRef) : Bool :=
  ((table.get? vehicle).bind fun data => data.seat seat).any fun other =>
    !table.isNull other && !table.same other unit

def takePlace (seat : Option Seat) (unit : ObjectRef) (data : ObjectData) : ObjectData :=
  match seat with
  | some seat => data.setSeat seat (some unit)
  | none => { data with crew := data.crew ++ [unit] }

def leaveVehicle (unit : ObjectRef) : Work Execution Unit := do
  let table := objectsOf (← get)
  match table.vehicleOf? unit with
  | some previous =>
      changeObjects fun objects => objects.update previous (table.withoutOccupant unit)
  | none => pure ()

/-- Moves a unit into a vehicle, out of the one it was in.  A seat that is taken by someone else
stays so, and then nothing changes. -/
def board (seat : Option Seat) (left right : Value) : Command := do
  let exec ← get
  if !(← expectBoarding exec left right) then
    return .nil
  else if seat.any fun seat => isTaken (objectsOf exec) right.objectRef seat left.objectRef then
    return .nil
  else
    leaveVehicle left.objectRef
    updateObject right (takePlace seat left.objectRef)
    return .nil

def isAboard (left right : Value) : Query := fun exec => do
  let table := objectsOf exec
  if ← expectBoarding exec left right then
    reply (.boolean ((table.get? right.objectRef).any fun data =>
      table.lists (table.occupants data) left.objectRef))
  else
    reply (.boolean false)

def checkClass (exec : Execution) (className : String) : Report Bool := do
  if exec.world.settings.classnameChecks then
    match ← exec.world.configs.lookupChecked ["CfgVehicles", className] .weak with
    | some _ => return true
    | none =>
        Report.note Fault.returningNil
        return false
  else
    return true

def createObject (kind : ObjectKind) (data : ObjectData) : Work Execution ObjectRef := do
  let ref := (objectsOf (← get)).next kind
  changeObjects fun table => table.create kind data
  return ref

/-- Creates a vehicle of a class, and replies it. -/
def createAt (className : String) (position : Vec3) : Command := do
  if ← checkClass (← get) className then
    return .value (objectValue (← createObject .vehicle { className, position }))
  else
    return .nil

def createVehicle (left right : Value) : Command := do
  match ← readTriple (← get).world.store right with
  | none => return .nil
  | some position => createAt left.content position

/-- The types of `[class, position, markers, placement, special]`. -/
def placementTypes : List ValueType :=
  [.string, .array, .array, .scalar, .string]

/-- Creates a vehicle from a list of arguments, of which class and position count. -/
def createVehicleFrom (right : Value) : Command := do
  let store := (← get).world.store
  let args := store.itemsOf right
  if !(← Check.sizeBetween args 4 5 .strong) then
    return .nil
  else if !(← Check.types args placementTypes .strong) then
    return .nil
  else
    match ← readNestedTriple store 1 (argument args 1) with
    | none => return .nil
    | some position => createAt (argument args 0).content position

/-- Creates a unit of a class in a group; `answer` tells what is replied. -/
def recruit (group : ObjectRef) (className : String) (position : Vec3)
    (answer : ObjectRef → Value) : Command := do
  if ← checkClass (← get) className then
    let unit ← createObject .unit { className, position }
    changeObjects fun table => table.join group unit
    return .value (answer unit)
  else
    return .nil

/-- Creates a unit in a group, and replies it. -/
def createMember (left right : Value) : Command := do
  if ← expectLive (← get) left .strong then
    let store := (← get).world.store
    let args := store.itemsOf right
    if !(← Check.size args 5 .strong) then
      return .nil
    else if !(← Check.types args placementTypes .strong) then
      return .nil
    else
      match ← readNestedTriple store 1 (argument args 1) with
      | none => return .nil
      | some position =>
          recruit left.objectRef (argument args 0).content position objectValue
  else
    return .nil

/-- Creates a unit in the group among the arguments, and replies nil. -/
def createUnit (left right : Value) : Command := do
  let store := (← get).world.store
  let args := store.itemsOf right
  if !(← Check.sizeAtLeast args 2 .strong) then
    return .nil
  else if !(← Check.types args [.array, .group, .string, .scalar, .string] .strong) then
    return .nil
  else
    match ← readNestedTriple store 0 (argument args 0) with
    | none => return .nil
    | some position =>
        if ← expectLive (← get) (argument args 1) .strong then
          recruit (argument args 1).objectRef left.content position fun _ => .nil
        else
          return .nil

def members (table : ObjectTable) (data : ObjectData) : List ObjectRef :=
  data.crew.filter fun ref => !table.isNull ref

def createGroup (right : Value) : Command := do
  let data : ObjectData := { className := "Group" }
  let sided : ObjectData :=
    match right with
    | .side side => { data with side }
    | _ => data
  return .value (.object (← createObject .group sided))

/-- Deletes an object, and takes it out of the registry. -/
def deleteObject (ref : ObjectRef) : Work Execution Unit := do
  changeObjects fun table => table.destroy ref
  changeObjects ObjectTable.forgetDeleted

def deleteVehicle (right : Value) : Command := do
  if ← expectLive (← get) right .weak then
    deleteObject right.objectRef
    return .nil
  else
    return .nil

/-- Deletes a group that has no live members. -/
def deleteGroup (right : Value) : Command := do
  if ← expectLive (← get) right .weak then
    let exec ← get
    if (dataOf? exec right).any fun data => !(members (objectsOf exec) data).isEmpty then
      Report.raise (Fault.groupNotEmpty (exec.world.store.display (.object right.objectRef)))
      return .nil
    else
      deleteObject right.objectRef
      return .nil
  else
    return .nil

def crews : CommandSet where
  unaries :=
    [unary "crew" .object crew,
      unary "driver" .object (occupant .driver),
      unary "gunner" .object (occupant .gunner),
      unary "commander" .object (occupant .commander),
      unary "vehicle" .object (vehicleOr id),
      unary "objectParent" .object (vehicleOr fun _ => noVehicle),
      unary "captive" .object captive,
      ⟨"createVehicle", .array, createVehicleFrom⟩,
      ⟨"deleteVehicle", .object, deleteVehicle⟩,
      ⟨"createGroup", .side, createGroup⟩,
      ⟨"deleteGroup", .group, deleteGroup⟩,
      unary "units" .group fun right exec =>
        replyArray (((dataOf? exec right).map (members (objectsOf exec))).getD []
          |>.map objectValue)]
  binaries :=
    [⟨"setCaptive", .object, .boolean, setCaptive⟩,
      ⟨"moveInCargo", .object, .object, board none⟩,
      ⟨"moveInDriver", .object, .object, board (some .driver)⟩,
      ⟨"moveInGunner", .object, .object, board (some .gunner)⟩,
      ⟨"moveInCommander", .object, .object, board (some .commander)⟩,
      binary "in" .object .object isAboard,
      ⟨"createVehicle", .string, .array, createVehicle⟩,
      ⟨"createVehicleLocal", .string, .array, createVehicle⟩,
      ⟨"createUnit", .group, .array, createMember⟩,
      ⟨"createUnit", .string, .array, createUnit⟩]

end SimScript.Command

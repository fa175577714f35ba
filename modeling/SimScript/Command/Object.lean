import SimScript.Command.Basic
import SimScript.Store.Render

/-!
# Commands on objects

Class, damage, name, side and position of objects.  Null and deleted objects are
treated alike; whether that aborts the statement depends on the command.
-/

namespace SimScript.Command

def objectValue (ref : ObjectRef) : Value :=
  .object ref

def noVehicle : ObjectRef := { kind := .vehicle }

def objectsOf (exec : Execution) : ObjectTable :=
  exec.world.store.objects

def dataOf? (exec : Execution) (value : Value) : Option ObjectData :=
  (objectsOf exec).get? value.objectRef

/-- Asks about a live object; a null one aborts the statement. -/
def withLive (value : Value) (query : ObjectRef → ObjectData → Query) : Query := fun exec =>
  match dataOf? exec value with
  | some data => query value.objectRef data exec
  | none => fail (.expectedNonNullValue .strong)

/-- Asks about a live object; for a null one, reports what is replied and replies it. -/
def withLiveOr (value : Value) (notice : Option Fault) (fallback : Value)
    (query : ObjectRef → ObjectData → Query) : Query := fun exec =>
  match dataOf? exec value with
  | some data => query value.objectRef data exec
  | none => do
      Report.raise (Fault.expectedNonNullValue .weak)
      match notice with
      | some notice => Report.note notice
      | none => pure ()
      reply fallback

def expectLive (exec : Execution) (value : Value) (strength : Strength) : Report Bool :=
  if (dataOf? exec value).isSome then pure true
  else Report.recover (Fault.expectedNonNullValue strength) false

def updateObject (value : Value) (update : ObjectData → ObjectData) : Work Execution Unit :=
  changeObjects fun table => table.update value.objectRef update

def replyVector (vector : Vec3) : Report Reply :=
  replyArray (vector.toList.map Value.scalar)

/-- The vector of up to three numbers; missing ones are zero. -/
def vectorOf (coordinates : List Value) : Vec3 where
  x := (argument coordinates 0).number
  y := (argument coordinates 1).number
  z := (argument coordinates 2).number

/-- Reads a point given by two or three numbers. -/
def readPoint (store : Store) (value : Value) : Report (Option Vec3) := do
  let coordinates := store.itemsOf value
  if !(← Check.sizeBetween coordinates 2 3 .strong) then
    return none
  else if !(← Check.allOf coordinates .scalar .strong) then
    return none
  else
    return some (vectorOf coordinates)

def readTriple (store : Store) (value : Value) : Report (Option Vec3) := do
  let coordinates := store.itemsOf value
  if ← Check.uniform coordinates .scalar 3 .strong then
    return some (vectorOf coordinates)
  else
    return none

/-- Reads a point given by exactly three numbers, inside the argument at the place `outer`. -/
def readNestedTriple (store : Store) (outer : Nat) (value : Value) : Report (Option Vec3) := do
  let coordinates := store.itemsOf value
  if !(← Check.size coordinates 3 .strong) then
    return none
  else if !(← Check.subTypes [outer] [.scalar] .strong 0 coordinates) then
    return none
  else
    return some (vectorOf coordinates)

def locate (exec : Execution) (value : Value) : Report (Option Vec3) :=
  match value with
  | .array _ => readPoint exec.world.store value
  | .object ref =>
      match (objectsOf exec).get? ref with
      | some data => pure (some data.position)
      | none => Report.recover (Fault.expectedNonNullValue .strong) none
  | _ => pure none

/-- Whether a class descends from another among the vehicles; a class that is not there descends
from itself only. -/
def isKindOfVehicle (configs : ConfigTree) (className base : String) : Bool :=
  (configs.isKindOf? ["CfgVehicles"] className base).getD (Text.sameName className base)

def kindContainers : List String :=
  ["CfgVehicles", "CfgAmmo", "CfgNonAiVehicles"]

def kindOfClass (left right : Value) : Query := fun exec =>
  reply (.boolean (kindContainers.any fun container =>
    exec.world.configs.isKindOf? [container] left.content right.content == some true))

def kindOfInConfig (left right : Value) : Query := fun exec => do
  let args := exec.world.store.itemsOf right
  if !(← Check.size args 2 .strong) then
    nothing
  else if !(← Check.types args [.string, .config] .strong) then
    nothing
  else
    match args with
    | [base, .config ⟨some container⟩] =>
        match ← exec.world.configs.lookupChecked (container ++ [left.content]) .weak with
        | none =>
            Report.note Fault.returningFalse
            reply (.boolean false)
        | some _ =>
            reply (.boolean
              (exec.world.configs.isKindOf? container left.content base.content == some true))
    | _ =>
        Report.raise (Fault.expectedNonNullValue .weak)
        Report.note Fault.returningFalse
        reply (.boolean false)

/-- Changes a live object; a null one aborts the statement. -/
def setData (value : Value) (update : ObjectData → ObjectData) : Command := do
  if ← expectLive (← get) value .strong then
    updateObject value update
    return .nil
  else
    return .nil

def setVector (set : ObjectData → Vec3 → ObjectData) (left right : Value) : Command := do
  if ← expectLive (← get) left .weak then
    match ← readTriple (← get).world.store right with
    | some vector =>
        updateObject left fun data => set data vector
        return .nil
    | none => return .nil
  else
    return .nil

def moveUnit (left right : Value) : Command := do
  if ← expectLive (← get) left .strong then
    if left.objectRef.kind != .unit then
      Report.raise (Fault.expectedUnit .strong)
      return .nil
    else
      match ← readPoint (← get).world.store right with
      | some position =>
          updateObject left fun data => { data with position }
          return .nil
      | none => return .nil
  else
    return .nil

/-- Puts each unit of an array at the destination, once all elements are known to be objects. -/
def moveUnits (left right : Value) : Command := do
  let units := (← get).world.store.itemsOf left
  if ← Check.subTypes [] [.object] .strong 0 units then
    units.forM fun unit => do
      let _ ← moveUnit unit right
    return .nil
  else
    return .nil

def isPlace : Value → Bool
  | .array _ | .object _ => true
  | _ => false

def measure (name : String) (flat : Bool) (left right : Value) : Query := fun exec => do
  let unknown := Fault.unknownInputTypeCombinationBinary name (some left.type) right.type
  if !isPlace left then
    fail unknown
  else
    match ← locate exec left with
    | none => nothing
    | some start =>
        if !isPlace right then
          fail unknown
        else
          match ← locate exec right with
          | none => nothing
          | some stop => reply (.scalar (Vec3.distance start stop flat))

/-- The live units, vehicles and markers within a radius whose class descends from a listed one, the
nearest first; an empty list admits every class. -/
def objectsNear (exec : Execution) (center : Vec3) (classes : List String) (radius : Float)
    (flat : Bool) : List ObjectRef :=
  let admits := fun (data : ObjectData) =>
    classes.isEmpty || classes.any (isKindOfVehicle exec.world.configs data.className)
  let near := (objectsOf exec).live.filterMap fun ref =>
    match (objectsOf exec).get? ref with
    | none => none
    | some data =>
        let away := Vec3.distance center data.position flat
        if ref.kind != .group && admits data && away ≤ radius then some (away, ref) else none
  (near.mergeSort fun left right => left.1 ≤ right.1).map Prod.snd

def nearestObjects (right : Value) : Query := fun exec => do
  let store := exec.world.store
  let args := store.itemsOf right
  if !(← Check.sizeBetween args 3 4 .strong) then
    nothing
  else if !(← Check.subType [0] (argument args 0) [.array, .object] .strong) then
    nothing
  else if !(← Check.types args [.any, .array, .scalar, .boolean] .strong) then
    nothing
  else
    let classes := store.itemsOf (argument args 1)
    if !(← Check.subTypes [1] [.string] .strong 0 classes) then
      nothing
    else
      match ← locate exec (argument args 0) with
      | none => nothing
      | some center =>
          let found := objectsNear exec center (classes.map Value.content)
            (argument args 2).number (argument args 3).flag
          replyArray (found.map objectValue)

def side (right : Value) : Query :=
  withLiveOr right none (.side .unknown) fun ref _ exec =>
    reply (.side ((objectsOf exec).sideOf ref))

def damage (right : Value) : Query :=
  withLive right fun _ data _ => reply (.scalar data.damage)

def position (right : Value) : Query :=
  withLive right fun _ data _ => replyVector data.position

def constant (name : String) (value : Value) : Nular :=
  nular name fun _ => reply value

def object : CommandSet where
  nulars :=
    [constant "objNull" (.object noVehicle),
      constant "grpNull" (.object { kind := .group }),
      nular "player" fun exec => reply (.object (objectsOf exec).player),
      constant "west" (.side .west),
      constant "blufor" (.side .west),
      constant "east" (.side .east),
      constant "opfor" (.side .east),
      constant "independent" (.side .independent),
      constant "resistance" (.side .independent),
      constant "civilian" (.side .civilian),
      constant "sideUnknown" (.side .unknown),
      nular "allUnits" fun exec =>
        replyArray (((objectsOf exec).live.filter fun ref => ref.kind = .unit).map objectValue)]
  unaries :=
    [unary "isNull" .object fun right exec =>
        reply (.boolean ((objectsOf exec).isNull right.objectRef)),
      unary "isNull" .group fun right exec =>
        reply (.boolean ((objectsOf exec).isNull right.objectRef)),
      unary "isNull" .config fun right _ =>
        match right with
        | .config ref => reply (.boolean ref.isNull)
        | _ => reply (.boolean false),
      unary "isNull" .script fun right _ =>
        match right with
        | .script id => reply (.boolean id.isNone)
        | _ => reply (.boolean false),
      unary "side" .object side,
      unary "side" .group side,
      unary "typeOf" .object fun right =>
        withLiveOr right (some .returningEmptyString) (.text "") fun _ data _ =>
          reply (.text data.className),
      unary "alive" .object fun right =>
        withLiveOr right none (.boolean false) fun _ data _ =>
          reply (.boolean (data.damage < 1)),
      unary "damage" .object damage,
      unary "getDammage" .object damage,
      unary "vehicleVarName" .object fun right =>
        withLive right fun _ data _ => reply (.text data.varName),
      unary "getPos" .object position,
      unary "position" .object position,
      unary "velocity" .object fun right =>
        withLive right fun _ data _ => replyVector data.velocity,
      unary "nearestObjects" .array nearestObjects]
  binaries :=
    [binary "isKindOf" .object .string fun left right =>
        withLiveOr left (some .returningFalse) (.boolean false) fun _ data exec =>
          reply (.boolean (isKindOfVehicle exec.world.configs data.className right.content)),
      binary "isKindOf" .string .string kindOfClass,
      binary "isKindOf" .string .array kindOfInConfig,
      ⟨"setDamage", .object, .scalar, fun left right =>
        setData left fun data => { data with damage := Scalar.clampUnit right.number }⟩,
      ⟨"setVehicleVarName", .object, .string, fun left right =>
        setData left fun data => { data with varName := right.content }⟩,
      ⟨"setPos", .object, .array, setVector fun data position => { data with position }⟩,
      ⟨"setVelocity", .object, .array, setVector fun data velocity => { data with velocity }⟩,
      ⟨"doMove", .object, .array, moveUnit⟩,
      ⟨"doMove", .array, .array, moveUnits⟩,
      binary "distance" .any .any (measure "distance" false),
      binary "distance2D" .any .any (measure "distance2D" true)]

end SimScript.Command

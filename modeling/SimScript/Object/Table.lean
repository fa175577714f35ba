import SimScript.Value.Basic

/-!
# Simulation objects

Objects are inert data: class, position, damage, seats, cargo.  They are numbered
in order of creation and never forgotten, so that references to a deleted object
keep meaning that object; the registry lists the objects that scripts can still
come across.
-/

namespace SimScript

structure Vec3 where
  x : Float := 0
  y : Float := 0
  z : Float := 0
  deriving Inhabited

def Vec3.toList (vector : Vec3) : List Float :=
  [vector.x, vector.y, vector.z]

/-- The distance between two points, over the first two or all three coordinates. -/
def Vec3.distance (a b : Vec3) (flat : Bool) : Float :=
  let squared := fun (p q : Float) => (p - q) * (p - q)
  let plane := squared a.x b.x + squared a.y b.y
  (if flat then plane else plane + squared a.z b.z).sqrt

inductive Seat where
  | driver
  | gunner
  | commander
  deriving DecidableEq

structure ObjectData where
  className : String
  /-- The name that scripts gave it, empty at first. -/
  varName : String := ""
  position : Vec3 := {}
  velocity : Vec3 := {}
  /-- From 0, intact, to 1, destroyed. -/
  damage : Float := 0
  driver : Option ObjectRef := none
  gunner : Option ObjectRef := none
  commander : Option ObjectRef := none
  /-- The cargo of a vehicle, or the members of a group. -/
  crew : List ObjectRef := []
  captive : Bool := false
  /-- The side of a group. -/
  side : Side := .civilian
  deleted : Bool := false
  deriving Inhabited

namespace ObjectData

def seat (data : ObjectData) : Seat → Option ObjectRef
  | .driver => data.driver
  | .gunner => data.gunner
  | .commander => data.commander

def setSeat (data : ObjectData) (seat : Seat) (occupant : Option ObjectRef) : ObjectData :=
  match seat with
  | .driver => { data with driver := occupant }
  | .gunner => { data with gunner := occupant }
  | .commander => { data with commander := occupant }

end ObjectData

/-- All objects ever created, each at the place that its references name; the registry in order of
creation; and the unit that the host calls the player. -/
structure ObjectTable where
  data : Array ObjectData := #[]
  registry : List ObjectRef := []
  player : ObjectRef := { kind := .unit }
  deriving Inhabited

namespace ObjectTable

/-- The data under a reference, deleted or not. -/
def record? (table : ObjectTable) (ref : ObjectRef) : Option ObjectData :=
  ref.id.bind fun id => table.data[id]?

/-- The data of a live object; null and deleted ones have none. -/
def get? (table : ObjectTable) (ref : ObjectRef) : Option ObjectData :=
  (table.record? ref).filter fun data => !data.deleted

def isNull (table : ObjectTable) (ref : ObjectRef) : Bool :=
  (table.get? ref).isNone

/-- Whether two references are one object; all null and deleted objects of a type are one. -/
def same (table : ObjectTable) (left right : ObjectRef) : Bool :=
  (left.id.isSome && left.id == right.id)
    || (table.isNull left && table.isNull right && left.kind.valueType == right.kind.valueType)

def update (table : ObjectTable) (ref : ObjectRef) (change : ObjectData → ObjectData) :
    ObjectTable :=
  match ref.id, table.get? ref with
  | some id, some data => { table with data := table.data.setIfInBounds id (change data) }
  | _, _ => table

def next (table : ObjectTable) (kind : ObjectKind) : ObjectRef :=
  { kind, id := some table.data.size }

def create (table : ObjectTable) (kind : ObjectKind) (data : ObjectData) : ObjectTable :=
  { table with
    data := table.data.push data
    registry := table.registry ++ [table.next kind] }

def join (table : ObjectTable) (group member : ObjectRef) : ObjectTable :=
  table.update group fun data => { data with crew := data.crew ++ [member] }

/-- Deletes an object for every reference, and empties its seats and its cargo. -/
def destroy (table : ObjectTable) (ref : ObjectRef) : ObjectTable :=
  table.update ref fun data =>
    { data with
      deleted := true
      driver := none
      gunner := none
      commander := none
      crew := [] }

/-- Takes deleted objects out of the registry. -/
def forgetDeleted (table : ObjectTable) : ObjectTable :=
  { table with registry := table.registry.filter fun ref => !table.isNull ref }

def live (table : ObjectTable) : List ObjectRef :=
  table.registry.filter fun ref => !table.isNull ref

def lists (table : ObjectTable) (refs : List ObjectRef) (ref : ObjectRef) : Bool :=
  refs.any fun other => table.same other ref

/-- The live occupants: driver, gunner, commander, then cargo. -/
def occupants (table : ObjectTable) (data : ObjectData) : List ObjectRef :=
  (data.driver.toList ++ data.gunner.toList ++ data.commander.toList ++ data.crew).filter
    fun ref => !table.isNull ref

def withoutOccupant (table : ObjectTable) (unit : ObjectRef) (data : ObjectData) : ObjectData :=
  let vacate := fun (seat : Option ObjectRef) => seat.filter fun ref => !table.same ref unit
  { data with
    driver := vacate data.driver
    gunner := vacate data.gunner
    commander := vacate data.commander
    crew := data.crew.filter fun ref => !table.same ref unit }

def vehicleOf? (table : ObjectTable) (unit : ObjectRef) : Option ObjectRef :=
  table.live.find? fun ref =>
    ref.kind = .vehicle && !table.same ref unit
      && (table.get? ref).any fun data => table.lists (table.occupants data) unit

/-- The group that lists a unit as a member. -/
def groupOf? (table : ObjectTable) (unit : ObjectRef) : Option ObjectRef :=
  table.live.find? fun ref =>
    ref.kind = .group && (table.get? ref).any fun data => table.lists data.crew unit

/-- The side of an object: a group has its own, a unit that of its group, and a vehicle that of its
first occupant. -/
def sideOf (table : ObjectTable) (ref : ObjectRef) : Side :=
  let viaGroup := fun (member : ObjectRef) =>
    ((table.groupOf? member).bind fun group => (table.get? group).map (·.side)).getD .civilian
  match ref.kind with
  | .group => ((table.get? ref).map (·.side)).getD .civilian
  | .vehicle =>
      match (table.get? ref).bind fun data => (table.occupants data).head? with
      | some member => viaGroup member
      | none => .civilian
  | .unit | .marker => viaGroup ref

end ObjectTable

end SimScript

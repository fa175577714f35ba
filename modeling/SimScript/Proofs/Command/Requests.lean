import SimScript.Command.Crew
import SimScript.Command.Network
import SimScript.Proofs.Plan.Effect

/-!
# What commands ask of objects and sessions

A command changes objects in few ways.  Most changes seat nobody and delete nobody; a
unit is put into a vehicle only as boarding does it, and a new object lists nobody.
The sessions change only as opening one or taking one down changes them.
-/

namespace SimScript

namespace ObjectData

/-- Everyone in a seat or on the list, deleted or not. -/
def listed (data : ObjectData) : List ObjectRef :=
  data.driver.toList ++ data.gunner.toList ++ data.commander.toList ++ data.crew

/-- The data of an object that is there and lists nobody. -/
structure Bare (data : ObjectData) : Prop where
  listed : data.listed = []
  present : data.deleted = false

/-- Who sits where, who is listed, and whether the object is deleted. -/
def roster (data : ObjectData) : (Seat → Option ObjectRef) × List ObjectRef × Bool :=
  (data.seat, data.crew, data.deleted)

/-- A change that leaves everyone where they are. -/
def Inert (change : ObjectData → ObjectData) : Prop :=
  ∀ data, (change data).roster = data.roster

end ObjectData

namespace ObjectTable

variable {table : ObjectTable}

@[simp] theorem registry_update (ref : ObjectRef) (change : ObjectData → ObjectData) :
    (table.update ref change).registry = table.registry := by
  unfold update
  split <;> rfl

/-- A reference that can be found in the table: a null one, or one to an object of the registry, to
the player, or to someone whom a live object lists. -/
inductive Mentions (table : ObjectTable) : ObjectRef → Prop where
  | null {ref : ObjectRef} (null : ref.id = none) : Mentions table ref
  | registered {ref : ObjectRef} (member : ref ∈ table.registry) : Mentions table ref
  | player : Mentions table table.player
  | listed {ref other : ObjectRef} {data : ObjectData} (found : table.get? other = some data)
      (member : ref ∈ data.listed) : Mentions table ref

/-- Nothing speaks against a unit taking a place in a vehicle. -/
structure CanBoard (table : ObjectTable) (seat : Option Seat) (unit vehicle : ObjectRef) :
    Prop where
  unitKind : unit.kind = .unit
  unitLive : table.isNull unit = false
  vehicleKind : vehicle.kind = .vehicle
  vehicleLive : table.isNull vehicle = false
  free : ∀ wanted ∈ seat, Command.isTaken table vehicle wanted unit = false

/-- The changes by which a unit leaves its vehicle and takes a place in another. -/
def boarding (table : ObjectTable) (seat : Option Seat) (unit vehicle : ObjectRef) :
    List (ObjectRef × (ObjectData → ObjectData)) :=
  ((table.vehicleOf? unit).toList.map fun previous => (previous, table.withoutOccupant unit)) ++
    [(vehicle, Command.takePlace seat unit)]

/-- The changes of objects that a command may ask for, with some references at hand. -/
inductive Permits (holds : ObjectRef → Prop) (table : ObjectTable) :
    List (ObjectRef × (ObjectData → ObjectData)) → Prop where
  | inert {updates : List (ObjectRef × (ObjectData → ObjectData))}
      (each : ∀ update ∈ updates, ObjectData.Inert update.2) : Permits holds table updates
  | boarding {seat : Option Seat} {unit vehicle : ObjectRef}
      (can : table.CanBoard seat unit vehicle)
      (unitHeld : holds unit) (vehicleHeld : holds vehicle) :
      Permits holds table (table.boarding seat unit vehicle)

theorem Permits.mono {holds knows : ObjectRef → Prop}
    {updates : List (ObjectRef × (ObjectData → ObjectData))}
    (values : ∀ ref, holds ref → knows ref) (permits : table.Permits holds updates) :
    table.Permits knows updates := by
  cases permits with
  | inert each => exact .inert each
  | boarding can unitHeld vehicleHeld =>
      exact .boarding can (values _ unitHeld) (values _ vehicleHeld)

end ObjectTable

/-- What a script can do to the sessions. -/
inductive Network.SessionTable.Asked (before : SessionTable) : SessionTable → Prop where
  | connect {enabled : Bool} {text : String} {site : Site} {id : Option SessionId}
      {events : List Event} {after : SessionTable}
      (connected : connect enabled text site before = (⟨.ok id, events⟩, after)) :
      Asked before after
  | disconnect (id : SessionId) : Asked before (before.disconnect id).2

/-- The value that a change puts at the disposal of its reply. -/
def Change.Makes (exec : Execution) (value : Value) : Change → Prop
  | .createObject kind _ _ => value = .object (exec.world.store.objects.next kind)
  | _ => False

end SimScript

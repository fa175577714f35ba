import SimScript.Proofs.Command.Objects
import SimScript.Proofs.Execution.Calls
import SimScript.Proofs.Machine.Course
import SimScript.Proofs.Object.Seats

/-!
# Boarding

In every situation the objects are enrolled in order and no live unit has two places,
whatever scripts do, if the host leaves seats and cargo to them.  So a unit that a
script moves into a vehicle is there and nowhere else afterwards, and nobody else has
moved.
-/

namespace SimScript

/-- An operation that does not change by hand who is where. -/
def Operation.LeavesSeats : Operation → Prop
  | .updateObject _ change => ObjectData.Inert change
  | _ => True

namespace Situation

open ObjectTable

variable {permits : Store → Value → Prop} {situation before after : Situation}

theorem Next.inOrder (next : before.Next permits after)
    (works : ¬∃ world changed, before = .idle world ∧ after = .idle changed)
    (ordered : before.world.store.objects.InOrder) : after.world.store.objects.InOrder :=
  next.objects works (fun _ _ _ kept sanctioned => kept.objects sanctioned) ordered

theorem Proceeds.inOrder
    (proceeds : Proceeds permits (fun _ => Operation.LeavesSeats) before after)
    (ordered : before.world.store.objects.InOrder) : after.world.store.objects.InOrder := by
  cases proceeds with
  | work next works => exact next.inOrder works ordered
  | @serve machine after _ _ _ done permitted allowed served =>
      obtain ⟨world⟩ := machine
      obtain ⟨changed⟩ := after
      have made : world.Served permits _ changed := World.served_of_serve done permitted served
      cases made with
      | aside _ same _ _ => exact same ▸ ordered
      | create kind className => exact ordered.create ⟨rfl, rfl⟩
      | update ref change => exact ordered.alike (alike_update allowed)
      | destroy ref => exact ordered.loses (loses_destroy _ ref)
      | setPlayer ref => exact ordered.alike ⟨rfl, rfl, fun _ => rfl⟩
      | sessions | setConnector | setState => exact ordered

theorem Arises.inOrder (arises : situation.Arises permits fun _ => Operation.LeavesSeats) :
    situation.world.store.objects.InOrder :=
  arises.preserved (motive := fun situation => situation.world.store.objects.InOrder)
    (fun _ => .empty) fun _ _ ordered proceeds => proceeds.inOrder ordered

end Situation

/-! ## Moving a unit into a vehicle -/

namespace ObjectTable

variable {table : ObjectTable} {unit vehicle : ObjectRef} {place : Option Seat}

def Free (table : ObjectTable) (place : Option Seat) (unit vehicle : ObjectRef) : Prop :=
  ∀ seat ∈ place, ∀ other ∈ table.placed vehicle (some seat), table.isNull other = false →
    other.id = unit.id

/-- A unit was put into one place, and out of all others; everyone else is where they were. -/
structure Boards (before : ObjectTable) (place : Option Seat) (unit vehicle : ObjectRef)
    (after : ObjectTable) : Prop where
  there : unit ∈ after.placed vehicle place
  only : ∀ other ∈ before.liveOf .vehicle, ∀ elsewhere,
    after.times unit other elsewhere = if other = vehicle ∧ elsewhere = place then 1 else 0
  others : ∀ ref, before.isNull ref = false → ref.id ≠ unit.id → ∀ other elsewhere,
    after.times ref other elsewhere = before.times ref other elsewhere
  live : ∀ kind, after.liveOf kind = before.liveOf kind

theorem isTaken_eq_false_iff {seat : Seat} (unitLive : table.isNull unit = false)
    (vehicleLive : table.isNull vehicle = false) :
    Command.isTaken table vehicle seat unit = false ↔
      ∀ other ∈ table.placed vehicle (some seat), table.isNull other = false →
        other.id = unit.id := by
  obtain ⟨data, found⟩ := isNull_eq_false_iff.mp vehicleLive
  have same : ∀ other, (!table.isNull other && !table.same other unit) = false ↔
      (table.isNull other = false → other.id = unit.id) := by
    intro other
    rw [← same_iff_of_live unitLive]
    cases table.isNull other <;> simp
  simp only [Command.isTaken, found, Option.bind_some, placed, Option.map_some, Option.getD_some,
    ObjectData.place, Option.mem_toList]
  cases data.seat seat with
  | none => simp
  | some other => simp only [Option.any_some, same, Option.some.injEq, forall_eq']

theorem canBoard_iff : table.CanBoard place unit vehicle ↔
    ((unit.kind = .unit ∧ table.isNull unit = false) ∧
      vehicle.kind = .vehicle ∧ table.isNull vehicle = false) ∧ table.Free place unit vehicle := by
  constructor
  · rintro ⟨unitKind, unitLive, vehicleKind, vehicleLive, free⟩
    refine ⟨⟨⟨unitKind, unitLive⟩, vehicleKind, vehicleLive⟩, fun seat wanted => ?_⟩
    exact (isTaken_eq_false_iff unitLive vehicleLive).mp (free seat wanted)
  · rintro ⟨⟨⟨unitKind, unitLive⟩, vehicleKind, vehicleLive⟩, free⟩
    refine ⟨unitKind, unitLive, vehicleKind, vehicleLive, fun seat wanted => ?_⟩
    exact (isTaken_eq_false_iff unitLive vehicleLive).mpr (free seat wanted)

theorem InOrder.boards (ordered : table.InOrder) (can : table.CanBoard place unit vehicle)
    (unitLive : unit ∈ table.liveOf .unit) (vehicleLive : vehicle ∈ table.liveOf .vehicle) :
    table.Boards place unit vehicle
      ((Change.updateObjects (table.boarding place unit vehicle)).objects table) := by
  rw [boarding_objects]
  refine ⟨?_, ?_, fun ref live apart other elsewhere => times_boarding_of_ne can live apart, ?_⟩
  · exact mem_placed_takePlace_self (isNull_vacated.trans can.vehicleLive)
  · intro other inside elsewhere
    rw [times_boarding ordered.enrolled ordered.seated can unitLive inside]
    have same : other.id = vehicle.id ↔ other = vehicle :=
      ⟨ordered.enrolled.eq_of_id (mem_liveOf.mp inside).1.1 (mem_liveOf.mp vehicleLive).1.1,
        congrArg ObjectRef.id⟩
    simp only [same]
  · intro kind
    rw [liveOf_update_of_kept (ObjectData.takePlace_deleted place unit), liveOf_vacated]

end ObjectTable

namespace Command

variable {exec : Execution} {name : String} {place : Option Seat} {unit vehicle : ObjectRef}
  {left right : Value}

/-- The commands that move a unit into a vehicle, and the places that they are for. -/
inductive MovesIn (name : String) : Option Seat → Prop where
  | cargo (named : Text.sameName name "moveInCargo" = true) : MovesIn name none
  | driver (named : Text.sameName name "moveInDriver" = true) : MovesIn name (some .driver)
  | gunner (named : Text.sameName name "moveInGunner" = true) : MovesIn name (some .gunner)
  | commander (named : Text.sameName name "moveInCommander" = true) :
      MovesIn name (some .commander)

theorem MovesIn.only (moves : MovesIn name place) :
    ∃ label, binariesOf name = [⟨label, .object, .object, board place⟩] := by
  cases moves with
  | cargo named =>
      refine ⟨"moveInCargo", ?_⟩
      rw [binariesOf, named_sameName binaryTable named]
      rfl
  | driver named =>
      refine ⟨"moveInDriver", ?_⟩
      rw [binariesOf, named_sameName binaryTable named]
      rfl
  | gunner named =>
      refine ⟨"moveInGunner", ?_⟩
      rw [binariesOf, named_sameName binaryTable named]
      rfl
  | commander named =>
      refine ⟨"moveInCommander", ?_⟩
      rw [binariesOf, named_sameName binaryTable named]
      rfl

theorem expectKind_of_live {ref : ObjectRef} {kind : ObjectKind} {unexpected : Fault}
    (alike : ref.kind = kind) (live : (objectsOf exec).isNull ref = false) :
    expectKind exec (.object ref) kind unexpected = pure true := by
  obtain ⟨data, found⟩ := ObjectTable.isNull_eq_false_iff.mp live
  have known : dataOf? exec (.object ref) = some data := found
  have same : (Value.object ref).objectRef.kind = kind := alike
  simp only [expectKind, known, same, Option.isNone_some, bne_self_eq_false]
  rfl

end Command

namespace Plan

open Command

variable {exec : Execution} {place : Option Seat} {unit vehicle : ObjectRef}
  {left right : Value}

theorem board_apply (unitKind : unit.kind = .unit) (unitLive : (objectsOf exec).isNull unit = false)
    (vehicleKind : vehicle.kind = .vehicle)
    (vehicleLive : (objectsOf exec).isNull vehicle = false) :
    board place (.object unit) (.object vehicle) exec =
      if place.any fun seat => isTaken (objectsOf exec) vehicle seat unit then nothing
      else change (.updateObjects ((objectsOf exec).boarding place unit vehicle)) := by
  have expected : expectBoarding exec (.object unit) (.object vehicle) = pure true := by
    simp only [expectBoarding, expectUnit, expectKind_of_live unitKind unitLive, pure_bind, if_true,
      expectKind_of_live vehicleKind vehicleLive]
  simp only [board, expected, pure_bind]
  rfl

theorem board_of_can (can : (objectsOf exec).CanBoard place unit vehicle) :
    board place (.object unit) (.object vehicle) exec =
      change (.updateObjects ((objectsOf exec).boarding place unit vehicle)) := by
  rw [board_apply can.unitKind can.unitLive can.vehicleKind can.vehicleLive]
  refine if_neg (Bool.eq_false_iff.mp ?_)
  cases place with
  | none => rfl
  | some seat => exact can.free seat rfl

theorem board_of_taken (unitKind : unit.kind = .unit)
    (unitLive : (objectsOf exec).isNull unit = false) (vehicleKind : vehicle.kind = .vehicle)
    (vehicleLive : (objectsOf exec).isNull vehicle = false)
    (taken : ¬(objectsOf exec).Free place unit vehicle) :
    board place (.object unit) (.object vehicle) exec = nothing := by
  rw [board_apply unitKind unitLive vehicleKind vehicleLive]
  refine if_pos ?_
  by_contra nobody
  refine taken (ObjectTable.canBoard_iff.mp
    ⟨unitKind, unitLive, vehicleKind, vehicleLive, ?_⟩).2
  rintro seat rfl
  exact Bool.eq_false_iff.mpr nobody

theorem board_runs (misfit : ¬(IsLive exec left .unit ∧ IsLive exec right .vehicle)) :
    (board place left right exec).Runs fun effect => effect = .answer .nothing (.value .nil) := by
  refine .bind expectBoarding_runs fun expected live => .ite (fun _ => .pure rfl) fun yes => ?_
  exact absurd (live (by simpa using yes)) misfit

end Plan

namespace Execution

open ObjectTable

variable {exec : Execution} {name : String} {place : Option Seat} {unit vehicle : ObjectRef}
  {left right : Value}

theorem callBinary_moveIn (moves : Command.MovesIn name place)
    (unitKind : unit.kind = .unit) (vehicleKind : vehicle.kind = .vehicle) :
    exec.callBinary name (.object unit) (.object vehicle) =
      exec.attempt (follow (Plan.board place (.object unit) (.object vehicle))) := by
  obtain ⟨label, only⟩ := moves.only
  refine callBinary_of_plan only (Command.board_follows place _ _) ?_
  simp [Value.type, unitKind, vehicleKind, ObjectKind.valueType, ValueType.accepts]

/-- A live unit that is moved into a live vehicle boards it, unless the seat is taken; then nothing
happens at all. -/
theorem callBinary_boards (ordered : exec.world.store.objects.InOrder)
    (moves : Command.MovesIn name place) (unitLive : unit ∈ exec.world.store.objects.liveOf .unit)
    (vehicleLive : vehicle ∈ exec.world.store.objects.liveOf .vehicle) :
    let table := exec.world.store.objects
    let outcome := exec.callBinary name (.object unit) (.object vehicle)
    outcome.1 = ⟨.ok (), []⟩ ∧
      (table.Free place unit vehicle →
        table.Boards place unit vehicle outcome.2.world.store.objects) ∧
      (¬table.Free place unit vehicle → outcome.2 = exec.pushOperand .nil) := by
  intro table outcome
  obtain ⟨⟨_, unitThere⟩, unitKind⟩ := mem_liveOf.mp unitLive
  obtain ⟨⟨_, vehicleThere⟩, vehicleKind⟩ := mem_liveOf.mp vehicleLive
  have called : outcome = exec.attempt
      (follow (Plan.board place (.object unit) (.object vehicle))) :=
    callBinary_moveIn moves unitKind vehicleKind
  by_cases free : table.Free place unit vehicle
  · have can : table.CanBoard place unit vehicle :=
      canBoard_iff.mpr ⟨⟨⟨unitKind, unitThere⟩, vehicleKind, vehicleThere⟩, free⟩
    have asks : Plan.board place (.object unit) (.object vehicle) exec exec.site =
        ⟨.ok (.answer (.updateObjects (table.boarding place unit vehicle)) (.value .nil)), []⟩ :=
      congrFun (Plan.board_of_can can) exec.site
    have done := attempt_of_plan_ok (congrArg Checked.result asks)
    have objects : ((Effect.answer (.updateObjects (table.boarding place unit vehicle))
        (.value .nil)).perform exec).world.store.objects =
          (Change.updateObjects (table.boarding place unit vehicle)).objects table :=
      congrArg (fun world => world.store.objects) (answer_world _ _)
    rw [called, done, asks, objects]
    exact ⟨rfl, fun _ => ordered.boards can unitLive vehicleLive, absurd free⟩
  · have asks : Plan.board place (.object unit) (.object vehicle) exec exec.site =
        ⟨.ok (.answer .nothing (.value .nil)), []⟩ :=
      congrFun (Plan.board_of_taken unitKind unitThere vehicleKind vehicleThere free) _
    have done := attempt_of_plan_ok (congrArg Checked.result asks)
    rw [called, done, asks]
    exact ⟨rfl, fun unoccupied => absurd unoccupied free, fun _ => rfl⟩

/-- Whatever else is moved into something else, nothing is changed. -/
theorem callBinary_boards_nobody (moves : Command.MovesIn name place)
    (misfit : ¬(Command.IsLive exec left .unit ∧ Command.IsLive exec right .vehicle)) :
    (exec.callBinary name left right).2.world = exec.world := by
  obtain ⟨label, only⟩ := moves.only
  by_cases fits : ValueType.object.accepts left.type = true ∧
      ValueType.object.accepts right.type = true
  · rw [callBinary_of_plan only (Command.board_follows place left right) fits]
    cases result : (Plan.board place left right exec exec.site).result with
    | error abort => rw [attempt_of_plan_error result]
    | ok effect =>
        obtain rfl := ((Plan.board_runs misfit).each exec.site).yields effect result
        rw [attempt_of_plan_ok result]
        exact answer_world _ _
  · rw [callBinary_of_unfit only fits]
    exact refuse_world _

end Execution

/-- Every live object stands in the registry once, in order of creation, and no live unit has two
places in live vehicles, in every situation that a host brings about that leaves seats to
scripts.  There, a live unit that is moved into a live vehicle comes to be in the place that was
asked for and in no other, and everyone else stays where they were; where another live unit has
the seat, nothing changes.  Nor does it where anything else is moved into anything else. -/
theorem live_units_have_one_place_and_boarding_moves_one_unit :
    (∀ (permits : Store → Value → Prop) (situation : Situation),
      situation.Arises permits (fun _ => Operation.LeavesSeats) →
        let table := situation.world.store.objects
        (∀ ref, table.isNull ref = false →
          table.registry.countP (fun entry => entry.id = ref.id) = 1) ∧
        table.registry.Pairwise ObjectRef.Before ∧
        ∀ unit ∈ table.liveOf .unit, table.aboard.countP (fun ref => ref.id = unit.id) ≤ 1) ∧
    (∀ (permits : Store → Value → Prop) (situation : Situation) (exec : Execution),
      situation.Arises permits (fun _ => Operation.LeavesSeats) →
      exec.world.store.objects = situation.world.store.objects →
      ∀ (name : String) (place : Option Seat), Command.MovesIn name place →
        ∀ unit ∈ exec.world.store.objects.liveOf .unit,
        ∀ vehicle ∈ exec.world.store.objects.liveOf .vehicle,
          let table := exec.world.store.objects
          let outcome := exec.callBinary name (.object unit) (.object vehicle)
          outcome.1 = ⟨.ok (), []⟩ ∧
            (table.Free place unit vehicle →
              table.Boards place unit vehicle outcome.2.world.store.objects) ∧
            (¬table.Free place unit vehicle → outcome.2 = exec.pushOperand .nil)) ∧
    ∀ (exec : Execution) (name : String) (place : Option Seat) (left right : Value),
      Command.MovesIn name place →
      ¬(Command.IsLive exec left .unit ∧ Command.IsLive exec right .vehicle) →
        (exec.callBinary name left right).2.world = exec.world := by
  refine ⟨?_, ?_, fun exec name place left right => Execution.callBinary_boards_nobody⟩
  · intro permits situation arises table
    have ordered := arises.inOrder
    exact ⟨fun ref => ordered.enrolled.countP_registry, ordered.enrolled.ascending,
      fun unit member => ordered.seated.countP_aboard ordered.enrolled member⟩
  · intro permits situation exec arises same name place moves unit unitLive vehicle vehicleLive
    have ordered : exec.world.store.objects.InOrder := same ▸ arises.inOrder
    exact Execution.callBinary_boards ordered moves unitLive vehicleLive

/-- A host that creates two vehicles and two units, and has a script put one of the units onto the
driver's seat of the first vehicle. -/
def Operation.boarding : List Operation :=
  [.createObject .vehicle "Car", .createObject .vehicle "Truck", .createObject .unit "Man",
    .createObject .unit "Man",
    .execute ([.push (.object ⟨.unit, some 2⟩), .push (.object ⟨.vehicle, some 0⟩),
      .callBinary "moveInDriver"].map fun op => ⟨op, Location.host⟩)]

theorem Machine.boards : ∃ answers machine,
    (Machine.ofSettings {}).serveAll 9 Operation.boarding = some (answers, machine) ∧
      machine.objects.liveOf .vehicle = [⟨.vehicle, some 0⟩, ⟨.vehicle, some 1⟩] ∧
      machine.objects.liveOf .unit = [⟨.unit, some 2⟩, ⟨.unit, some 3⟩] ∧
      machine.objects.placed ⟨.vehicle, some 0⟩ (some .driver) = [⟨.unit, some 2⟩] := by
  have seen : ((Machine.ofSettings {}).serveAll 9 Operation.boarding).map (fun served =>
      (served.2.objects.liveOf .vehicle, served.2.objects.liveOf .unit,
        served.2.objects.placed ⟨.vehicle, some 0⟩ (some .driver))) =
      some ([⟨.vehicle, some 0⟩, ⟨.vehicle, some 1⟩], [⟨.unit, some 2⟩, ⟨.unit, some 3⟩],
        [⟨.unit, some 2⟩]) := by
    decide +kernel
  obtain ⟨⟨answers, machine⟩, served, same⟩ := Option.map_eq_some_iff.mp seen
  obtain ⟨vehicles, units, driver⟩ := by simpa only [Prod.mk.injEq] using same
  exact ⟨answers, machine, served, vehicles, units, driver⟩

/-- The driver of a vehicle is not put out by another unit, and leaves the seat to ride in the cargo
of another vehicle.  Vehicles ride nowhere. -/
theorem driver_keeps_the_seat_until_it_leaves : ∃ machine : Machine,
    Situation.Arises (fun _ _ => True) (fun _ => Operation.LeavesSeats) (.idle machine.world) ∧
    machine.objects.placed ⟨.vehicle, some 0⟩ (some .driver) = [⟨.unit, some 2⟩] ∧
    machine.objects.aboard.countP (fun ref => ref.id = some 2) ≤ 1 ∧
    ∀ exec : Execution, exec.world = machine.world →
      let crowds := exec.callBinary "moveInDriver" (.object ⟨.unit, some 3⟩)
        (.object ⟨.vehicle, some 0⟩)
      let changes := exec.callBinary "MOVEINCARGO" (.object ⟨.unit, some 2⟩)
        (.object ⟨.vehicle, some 1⟩)
      let rides := exec.callBinary "moveInGunner" (.object ⟨.vehicle, some 0⟩)
        (.object ⟨.vehicle, some 1⟩)
      crowds.2 = exec.pushOperand .nil ∧
        (changes.2.world.store.objects.times ⟨.unit, some 2⟩ ⟨.vehicle, some 0⟩ (some .driver) = 0 ∧
          changes.2.world.store.objects.times ⟨.unit, some 2⟩ ⟨.vehicle, some 1⟩ none = 1) ∧
        rides.2.world = exec.world := by
  obtain ⟨answers, machine, served, vehicles, units, driver⟩ := Machine.boards
  obtain ⟨orders, boards, spares⟩ := live_units_have_one_place_and_boarding_moves_one_unit
  have fresh : Situation.Arises (fun _ _ => True) (fun _ => Operation.LeavesSeats)
      (.idle (Machine.ofSettings {}).world) := ⟨_, .refl⟩
  have arises : Situation.Arises (fun _ _ => True) (fun _ => Operation.LeavesSeats)
      (.idle machine.world) := by
    refine fresh.serveAll (fun _ _ => trivial) (fun _ _ _ _ _ => trivial) ?_ served
    simp [Operation.boarding, Operation.LeavesSeats]
  have car : ⟨.vehicle, some 0⟩ ∈ machine.objects.liveOf .vehicle := by simp [vehicles]
  have truck : ⟨.vehicle, some 1⟩ ∈ machine.objects.liveOf .vehicle := by simp [vehicles]
  have man : ⟨.unit, some 2⟩ ∈ machine.objects.liveOf .unit := by simp [units]
  have other : ⟨.unit, some 3⟩ ∈ machine.objects.liveOf .unit := by simp [units]
  refine ⟨machine, arises, driver, (orders _ _ arises).2.2 ⟨.unit, some 2⟩ man, ?_⟩
  intro exec same crowds changes rides
  have table : exec.world.store.objects = machine.objects := congrArg (·.store.objects) same
  have boarded := boards _ _ exec arises table
  rw [table] at boarded
  refine ⟨?_, ?_, ?_⟩
  · obtain ⟨-, -, refused⟩ := boarded "moveInDriver" _ (.driver (by decide)) _ other _ car
    refine refused fun free => ?_
    have taken := free .driver rfl ⟨.unit, some 2⟩ (by simp [driver])
      (ObjectTable.live_of_mem_liveOf man)
    simp at taken
  · obtain ⟨-, moved, -⟩ := boarded "MOVEINCARGO" _ (.cargo (by decide)) _ man _ truck
    have there := (moved nofun).only
    exact ⟨there _ car _, there _ truck _⟩
  · refine spares exec "moveInGunner" _ _ _ (.gunner (by decide)) ?_
    rintro ⟨⟨-, kind, -⟩, -⟩
    cases kind

end SimScript

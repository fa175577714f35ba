import SimScript.Proofs.Execution.Searching
import SimScript.Proofs.Machine.Course

/-!
# Searching for objects

Whatever a host and its scripts do, the registry lists every live object once, in order
of creation.  So `nearestObjects` misses nothing, and what it replies is exact for any
request of the right shape.  It goes through all objects but groups, markers included.
-/

namespace SimScript

/-! ## The registry -/

namespace ObjectTable.Enrolled

variable {table : ObjectTable} {updates : List (ObjectRef × (ObjectData → ObjectData))}

theorem updateObjects (enrolled : table.Enrolled) :
    ((Change.updateObjects updates).objects table).Enrolled := by
  induction updates generalizing table with
  | nil => exact enrolled
  | cons update rest induction => exact induction (enrolled.update update.1 update.2)

theorem objects {asked : Change} {holds : Value → Prop} {supplies : CodeBlock → Prop}
    {recruits : Prop} {exec : Execution} (enrolled : exec.world.store.objects.Enrolled)
    (sanctioned : asked.Sanctioned holds supplies recruits exec) :
    (asked.objects exec.world.store.objects).Enrolled := by
  cases asked with
  | updateObjects updates => exact enrolled.updateObjects
  | createObject kind data group =>
      obtain ⟨bare, -⟩ := sanctioned
      have created : (exec.world.store.objects.create kind data).Enrolled :=
        enrolled.create bare.present
      cases group with
      | none => exact created
      | some group => exact created.update _ _
  | deleteObject ref =>
      exact enrolled.loses ((loses_destroy _ ref).trans (loses_forgetDeleted _))
  | _ => exact enrolled

end ObjectTable.Enrolled

namespace Situation

variable {permits : Store → Value → Prop} {orderly : World → Operation → Prop}
  {situation before after : Situation}

theorem Proceeds.enrolled (proceeds : Proceeds permits orderly before after)
    (enrolled : before.world.store.objects.Enrolled) : after.world.store.objects.Enrolled := by
  cases proceeds with
  | work next works =>
      exact next.objects works (fun _ _ _ kept sanctioned => kept.objects sanctioned) enrolled
  | @serve machine after _ _ _ done permitted _ served =>
      obtain ⟨world⟩ := machine
      obtain ⟨changed⟩ := after
      have made : world.Served permits _ changed := World.served_of_serve done permitted served
      cases made with
      | aside _ same _ _ => exact same ▸ enrolled
      | create kind className => exact enrolled.create rfl
      | update ref change => exact enrolled.update ref change
      | destroy ref => exact enrolled.loses (ObjectTable.loses_destroy _ ref)
      | setPlayer ref => exact ⟨enrolled.ascending, enrolled.given, enrolled.complete⟩
      | sessions | setConnector | setState => exact enrolled

theorem Arises.enrolled (arises : situation.Arises permits orderly) :
    situation.world.store.objects.Enrolled :=
  arises.preserved (motive := fun situation => situation.world.store.objects.Enrolled)
    (fun _ => .empty) fun _ _ enrolled proceeds => proceeds.enrolled enrolled

end Situation

/-! ## Searches -/

/-- In every situation that a host and its scripts bring about, all live objects are gone through.
A request of the right shape is answered with a new array of exactly what is looked for among them,
the nearest first and without repetition, where groups are left out and nothing else is: units,
vehicles and markers are found.  Any other request gives the statement up. -/
theorem nearest_objects_are_exact_but_for_markers (permits : Store → Value → Prop)
    (orderly : World → Operation → Prop) (situation : Situation)
    (arises : situation.Arises permits orderly) (exec : Execution)
    (same : exec.world.store.objects = situation.world.store.objects) (name : String)
    (named : Text.sameName name "nearestObjects" = true) (cell : CellId) :
    let table := exec.world.store.objects
    let asks := Command.Asks exec (exec.world.store.items cell).toList
    let outcome := exec.callUnary name (.array cell)
    (∀ ref, table.isNull ref = false → ∃ entry ∈ table.live, entry.id = ref.id) ∧
    table.live.Pairwise ObjectRef.Before ∧
    (∀ search, asks search → ∃ found, outcome = (⟨.ok (), []⟩, exec.withFound found) ∧
      table.Finds exec.world.configs search found) ∧
    ((∀ search, ¬asks search) → outcome.1.result = .error .statement ∧ outcome.2 = exec) := by
  intro table asks outcome
  have enrolled : exec.world.store.objects.Enrolled := same ▸ arises.enrolled
  exact ⟨fun ref => enrolled.exists_live, enrolled.live_ascending,
    Execution.callUnary_nearestObjects named enrolled⟩

/-- A script without frames that is about to ask for all that is within ten metres of the origin. -/
def World.lookedAround (world : World) : Execution where
  world :=
    let cells := #[#[.scalar 0, .scalar 0], #[], #[.array 0, .array 1, .scalar 10]]
    { world with store := { world.store with cells } }
  handle := { id := 0, stack := [] }
  location := .host

def Search.around : Search where
  center := { x := 0, y := 0, z := 0 }
  classes := []
  radius := 10
  flat := false

def Operation.scattering : List Operation :=
  [.createObject .vehicle "Car", .createObject .unit "Man", .createObject .group "Crew",
    .updateObject ⟨.vehicle, some 0⟩ fun data => { data with position := { x := 3 } }]

theorem Machine.scatters : ∃ answers machine,
    (Machine.ofSettings {}).serveAll 9 Operation.scattering = some (answers, machine) ∧
      machine.objects.live = [⟨.vehicle, some 0⟩, ⟨.unit, some 1⟩, ⟨.group, some 2⟩] ∧
      ∀ ref ∈ machine.objects.live, ∃ data, machine.objects.get? ref = some data ∧
        Search.around.away data ≤ Search.around.radius := by
  have seen : ((Machine.ofSettings {}).serveAll 9 Operation.scattering).map (fun served =>
      (served.2.objects.live, served.2.objects.live.all fun ref =>
        (served.2.objects.get? ref).any fun data =>
          Search.around.away data ≤ Search.around.radius)) =
      some ([⟨.vehicle, some 0⟩, ⟨.unit, some 1⟩, ⟨.group, some 2⟩], true) := by
    decide +kernel
  obtain ⟨⟨answers, machine⟩, served, same⟩ := Option.map_eq_some_iff.mp seen
  obtain ⟨live, near⟩ := Prod.mk.inj same
  refine ⟨answers, machine, served, live, fun ref member => ?_⟩
  obtain ⟨data, found, close⟩ := (Option.any_eq_true _ _).mp (List.all_eq_true.mp near ref member)
  exact ⟨data, found, of_decide_eq_true close⟩

/-- The unit and the vehicle are found, and the group is not. -/
theorem search_finds_a_unit_and_a_vehicle : ∃ machine : Machine,
    Situation.Arises (fun _ _ => True) (fun _ _ => True) (.idle machine.world) ∧
    ∃ found, machine.world.lookedAround.callUnary "NEARESTOBJECTS" (.array 2) =
        (⟨.ok (), []⟩, machine.world.lookedAround.withFound found) ∧
      ⟨.vehicle, some 0⟩ ∈ found ∧ ⟨.unit, some 1⟩ ∈ found ∧ ⟨.group, some 2⟩ ∉ found := by
  obtain ⟨answers, machine, served, live, near⟩ := Machine.scatters
  have fresh : Situation.Arises (fun _ _ => True) (fun _ _ => True)
      (.idle (Machine.ofSettings {}).world) := ⟨_, .refl⟩
  have arises : Situation.Arises (fun _ _ => True) (fun _ _ => True) (.idle machine.world) :=
    fresh.serveAll (fun _ _ => trivial) (fun _ _ _ _ _ => trivial) (fun _ _ _ => trivial) served
  obtain ⟨-, -, answered, -⟩ := nearest_objects_are_exact_but_for_markers _ _ _ arises
    machine.world.lookedAround rfl "NEARESTOBJECTS" (by decide) 2
  have asks : Command.Asks machine.world.lookedAround
      (machine.world.lookedAround.world.store.items 2).toList Search.around :=
    @Command.Asks.mk machine.world.lookedAround (.array 0) 1 [] Search.around rfl rfl
      (.inl ⟨rfl, rfl⟩)
  obtain ⟨found, outcome, finds⟩ := answered Search.around asks
  have wanted (ref : ObjectRef) (member : ref ∈ machine.objects.live) (kind : ref.kind ≠ .group) :
      ref ∈ found := by
    obtain ⟨data, there, close⟩ := near ref member
    exact (finds.mem_iff ref).mpr ⟨member, kind, data, there, .inl rfl, close⟩
  refine ⟨machine, arises, found, outcome, wanted _ ?_ nofun, wanted _ ?_ nofun, fun group => ?_⟩
  · simp [live]
  · simp [live]
  · exact ((finds.mem_iff _).mp group).2.1 rfl

/-- A marker is neither a unit nor a vehicle, but the array that a search replies has it. -/
theorem search_finds_a_marker : ∃ answers machine,
    (Machine.ofSettings {}).serveAll 9 [.createObject .marker "Flag"] = some (answers, machine) ∧
      let outcome := machine.world.lookedAround.callUnary "nearestObjects" (.array 2)
      (outcome.2.world.store.items 3).toList.map Value.asObject? = [some ⟨.marker, some 0⟩] := by
  have seen : ((Machine.ofSettings {}).serveAll 9 [.createObject .marker "Flag"]).map
      (fun served =>
        let outcome := served.2.world.lookedAround.callUnary "nearestObjects" (.array 2)
        (outcome.2.world.store.items 3).toList.map Value.asObject?) =
      some [some ⟨.marker, some 0⟩] := by
    decide +kernel
  obtain ⟨⟨answers, machine⟩, served, same⟩ := Option.map_eq_some_iff.mp seen
  exact ⟨answers, machine, served, same⟩

end SimScript

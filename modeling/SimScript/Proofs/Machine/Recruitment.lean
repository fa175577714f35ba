import SimScript.Proofs.Machine.Course
import SimScript.Proofs.Machine.Holdings
import SimScript.Proofs.Object.Membership

/-!
# How units come into groups

Scripts pass references to objects around, but make none up.  So no vehicle is taken for
a group, and where the host leaves groups to scripts, the members of a group are the units
that were created in it, for as long as it is there.  The group of a live object is found
by that.  For a deleted one some group is found that lists someone who has been deleted.
-/

namespace SimScript

def ObjectTable.Covers (table : ObjectTable) (value : Value) : Prop :=
  ∀ ref, value = .object ref → table.Issued ref

/-- An operation that leaves everyone in their groups and hands over no reference that was not given
out. -/
def World.LeavesGroups (world : World) : Operation → Prop
  | .updateObject _ change => ObjectData.Inert change
  | .setPlayer ref => world.store.objects.Issued ref
  | _ => True

/-- The objects are consistent, and every reference that is held anywhere was given out. -/
structure Authentic (world : World) (handles : List Handle) : Prop where
  objects : world.store.objects.Consistent
  contents : world.store.Hold world.store.objects.Covers
  held : world.Holds world.store.objects.Covers handles

def Execution.Authentic (exec : Execution) : Prop :=
  SimScript.Authentic exec.world (exec.handle :: exec.world.scheduler.handles)

namespace ObjectTable

variable {table before after : ObjectTable} {value : Value} {recruits : Prop}

theorem covers_of_other (other : value.asObject? = none) : table.Covers value := by
  rintro ref rfl
  cases other

theorem covers_nil : table.Covers .nil :=
  covers_of_other rfl

theorem Onward.covers (onward : before.Onward recruits after) (covers : before.Covers value) :
    after.Covers value :=
  fun ref same => onward.issued (covers ref same)

theorem Consistent.covers_of_mentions {store : Store} (consistent : store.objects.Consistent)
    (mentioned : store.Mentions value) : store.objects.Covers value := by
  obtain ⟨ref, rfl, found⟩ := mentioned
  rintro _ ⟨⟩
  exact consistent.mentioned found

end ObjectTable

namespace Authentic

variable {world : World} {handles : List Handle}

theorem onward {after : World} {others : List Handle} {recruits : Prop}
    (onward : world.store.objects.Onward recruits after.store.objects)
    (objects : after.store.objects.Consistent)
    (contents : after.store.Hold world.store.objects.Covers)
    (held : after.Holds world.store.objects.Covers others) : Authentic after others where
  objects := objects
  contents := contents.mono fun _ => onward.covers
  held := held.mono fun _ => onward.covers

theorem withObjects {update : ObjectTable → ObjectTable} {recruits : Prop}
    (authentic : Authentic world handles)
    (onward : world.store.objects.Onward False (update world.store.objects))
    (objects : (update world.store.objects).Consistent) :
    Authentic { world with store := world.store.withObjects update } handles ∧
      world.store.objects.Onward recruits (update world.store.objects) :=
  ⟨.onward onward objects (authentic.contents.withObjects update) authentic.held.restock,
    onward.mono False.elim⟩

end Authentic

namespace Execution

variable {start exec after : Execution}

namespace Authentic

theorem covers_of_knows {value : Value} (authentic : exec.Authentic) (known : exec.Knows value) :
    exec.world.store.objects.Covers value := by
  have own := authentic.held.handles exec.handle (by simp)
  cases known with
  | plain plain =>
      rintro ref rfl
      cases plain
  | mentioned mentioned => exact authentic.objects.covers_of_mentions mentioned
  | frame member held => exact (own.frames _ member).values _ held
  | constant member pushed =>
      exact (own.frames _ member).constants _ (by simp [CallFrame.codes]) _ pushed
  | item member => exact authentic.contents.items _ _ member
  | bound found member => exact authentic.held.scopes _ _ found _ member

theorem covers_of_supplies {code : CodeBlock} (authentic : exec.Authentic)
    (supplied : exec.Supplies code) :
    ∀ value ∈ code.constants, exec.world.store.objects.Covers value := by
  intro value constant
  cases supplied with
  | stored stored => exact authentic.contents.codeOf stored value constant
  | loop member held =>
      have own := authentic.held.handles exec.handle (by simp)
      exact (own.frames _ member).constants _ (by simp [CallFrame.codes, held]) _ constant

end Authentic

/-- In the middle of a step everything that is held was given out, and objects have gone on as they
may in that step. -/
structure AuthenticSince (start exec : Execution) : Prop where
  authentic : exec.Authentic
  onward : start.world.store.objects.Onward start.Recruits exec.world.store.objects

theorem AuthenticSince.move (since : AuthenticSince start exec) (first : start.Authentic)
    (move : Move start exec after) : AuthenticSince start after := by
  obtain ⟨authentic, onward⟩ := since
  have known : ∀ value, start.Knows value → exec.world.store.objects.Covers value :=
    fun value atStart => onward.covers (first.covers_of_knows atStart)
  have mentioned : ∀ value, exec.world.store.Mentions value →
      exec.world.store.objects.Covers value := fun _ => authentic.objects.covers_of_mentions
  obtain ⟨asked, sanctioned, same⟩ := move_objects move
  obtain ⟨consistent, further⟩ :=
    authentic.objects.objects (fun ref given => known _ given ref rfl) sanctioned
  rw [← same] at consistent further
  refine ⟨.onward further consistent ?_ ?_, onward.trans further⟩
  · exact move_contents (fun _ => ObjectTable.covers_of_other) authentic.contents known mentioned
      move
  · refine Holds.move authentic.held move known ?_ ?_
    · intro code atStart value constant
      exact onward.covers (first.covers_of_supplies atStart value constant)
    · intro given sanctioned _
      have handed := sanctioned.mono fun value => Or.rec (known value) (mentioned value)
      exact (Store.reply_builds
        (fun _ => ObjectTable.covers_of_other) authentic.contents handed).value

theorem Authentic.moves (authentic : start.Authentic) (moves : start.Moves after) :
    AuthenticSince start after :=
  moves.preserves ⟨authentic, .refl _⟩ fun _ _ since move => since.move authentic move

end Execution

theorem World.Tended.contents {world after : World} {permits : Store → Value → Prop}
    (tended : world.Tended permits after)
    (permitted : ∀ value, permits world.store value → world.store.objects.Covers value)
    (contents : world.store.Hold world.store.objects.Covers) :
    after.store.Hold world.store.objects.Covers := by
  cases tended with
  | terminate id => exact (world.terminate_spares id).1.symm ▸ contents
  | newArray allowed =>
      exact (Store.newArray_builds
        (fun _ => ObjectTable.covers_of_other) contents fun item member =>
        permitted item (allowed item (List.mem_toArray.mp member))).held
  | newBlock allowed =>
      exact contents.newBlock fun value constant => permitted value (allowed value constant)
  | objects update => exact contents.withObjects update
  | _ => exact contents

namespace Situation

/-- What a host may hand over: references that were given out. -/
abbrev handsOver (store : Store) (value : Value) : Prop :=
  store.objects.Covers value

/-- A situation that arises where the host hands over nothing else, and leaves groups to scripts. -/
abbrev Unfolds : Situation → Prop :=
  Arises handsOver World.LeavesGroups

/-- The handle at work makes a step in which it calls the command that creates units in groups. -/
def Recruits (before after : Situation) : Prop :=
  ∃ exec batch, before = .atWork exec batch ∧ after = .atWork exec.advance.2 batch ∧
    exec.handle.state = .running ∧ exec.Recruits

/-- On the way to a situation, a unit that had not been created before was a member of a group after
a step that called the command that creates units in groups. -/
def Enlisted (unit group : ObjectRef) (situation : Situation) : Prop :=
  ∃ before after, Unfolds before ∧ before.Recruits after ∧ Unfolds after ∧
    before.world.store.objects.Fresh unit ∧ unit ∈ after.world.store.objects.crewOf group ∧
    Leads handsOver World.LeavesGroups after situation

variable {situation before after : Situation} {unit group : ObjectRef}

theorem Next.authentic (next : before.Next handsOver after)
    (works : ¬∃ world changed, before = .idle world ∧ after = .idle changed)
    (authentic : Authentic before.world before.handles) :
    Authentic after.world after.handles ∧
      before.world.store.objects.Onward (before.Recruits after) after.world.store.objects := by
  by_cases steps : before.Steps after
  · obtain ⟨exec, batch, rfl, rfl⟩ := steps
    cases next with
    | advance running =>
        have since := Execution.Authentic.moves authentic (Execution.advance_moves exec)
        exact ⟨since.authentic, since.onward.mono fun recruits =>
          ⟨exec, batch, rfl, rfl, running, recruits⟩⟩
  · have held := next.holds steps ObjectTable.covers_nil (fun _ => id) authentic.held
    have same := (next.spares works steps).1
    rw [← same] at held
    rw [← same]
    exact ⟨⟨same ▸ authentic.objects, same ▸ authentic.contents, held⟩, .refl _⟩

theorem Proceeds.authentic (proceeds : Proceeds handsOver World.LeavesGroups before after)
    (authentic : Authentic before.world before.handles) :
    Authentic after.world after.handles ∧
      before.world.store.objects.Onward (before.Recruits after) after.world.store.objects := by
  cases proceeds with
  | work next works => exact next.authentic works authentic
  | @serve machine after _ _ _ done permitted allowed served =>
      obtain ⟨world⟩ := machine
      obtain ⟨changed⟩ := after
      have made : world.Served handsOver _ changed := World.served_of_serve done permitted served
      have objects : world.store.objects.Consistent := authentic.objects
      cases made with
      | aside tended same _ _ =>
          have onward : world.store.objects.Onward (Recruits (.idle world) (.idle changed))
              changed.store.objects := by
            rw [same]
            exact .refl _
          have held : world.Holds world.store.objects.Covers world.scheduler.handles :=
            authentic.held
          exact ⟨.onward onward (same ▸ objects) (tended.contents (fun _ => id) authentic.contents)
            (held.tended ObjectTable.covers_nil (fun _ => id) tended), onward⟩
      | create kind className =>
          exact authentic.withObjects (ObjectTable.onward_create ⟨rfl, rfl⟩)
            (objects.create ⟨rfl, rfl⟩)
      | update ref change =>
          have alike : world.store.objects.Alike (world.store.objects.update ref change) :=
            ObjectTable.alike_update allowed
          exact authentic.withObjects alike.onward
            (objects.alike alike (.inl ObjectTable.player_update))
      | destroy ref =>
          have loses := ObjectTable.loses_destroy world.store.objects ref
          exact authentic.withObjects loses.onward (objects.loses loses ObjectTable.player_update)
      | setPlayer ref =>
          have alike : world.store.objects.Alike { world.store.objects with player := ref } :=
            ⟨rfl, rfl, fun _ => rfl⟩
          exact authentic.withObjects alike.onward (objects.alike alike (.inr allowed))
      | sessions | setConnector | setState =>
          exact ⟨⟨objects, authentic.contents, authentic.held.scopes, authentic.held.handles⟩,
            .refl _⟩

/-- Along a course groups lose nobody for as long as they are there. -/
theorem Leads.onward (leads : Leads handsOver World.LeavesGroups before after)
    (authentic : Authentic before.world before.handles) :
    Authentic after.world after.handles ∧
      before.world.store.objects.Onward True after.world.store.objects := by
  induction leads with
  | refl => exact ⟨authentic, .refl _⟩
  | tail _ proceeds induction =>
      obtain ⟨later, onward⟩ := induction
      obtain ⟨last, further⟩ := proceeds.authentic later
      exact ⟨last, onward.trans (further.mono fun _ => trivial)⟩

theorem Unfolds.authentic (unfolds : situation.Unfolds) :
    Authentic situation.world situation.handles := by
  obtain ⟨settings, leads⟩ := unfolds
  exact (leads.onward ⟨.empty, .empty, .fresh settings⟩).1

theorem Enlisted.next (enlisted : before.Enlisted unit group)
    (proceeds : Proceeds handsOver World.LeavesGroups before after) :
    after.Enlisted unit group := by
  obtain ⟨start, stop, unfolds, recruits, unfolded, fresh, listed, leads⟩ := enlisted
  exact ⟨start, stop, unfolds, recruits, unfolded, fresh, listed, leads.tail proceeds⟩

/-- Every member of a group that is there was enlisted in it at some time. -/
theorem Unfolds.enlisted (unfolds : situation.Unfolds) :
    ∀ group ∈ situation.world.store.objects.liveOf .group,
      ∀ unit ∈ situation.world.store.objects.crewOf group, situation.Enlisted unit group := by
  obtain ⟨settings, leads⟩ := unfolds
  induction leads with
  | refl => exact fun group there => absurd there List.not_mem_nil
  | @tail before after leads proceeds induction =>
      intro group there unit member
      have unfolds : before.Unfolds := ⟨settings, leads⟩
      have onward := (proceeds.authentic unfolds.authentic).2
      obtain ⟨new, crew, joined, fresh⟩ := onward.joined group there
      rw [crew] at member
      rcases List.mem_append.mp member with old | inNew
      · exact (induction group (onward.group_of_crew there old) unit old).next proceeds
      · have recruits := joined.resolve_left (List.ne_nil_of_mem inNew)
        exact ⟨before, after, unfolds, recruits, unfolds.next proceeds, fresh unit inNew,
          crew ▸ List.mem_append_right _ inNew, .refl⟩

/-- The members of a group that is there are the units that were enlisted in it. -/
theorem Unfolds.enlisted_iff (unfolds : situation.Unfolds)
    (there : group ∈ situation.world.store.objects.liveOf .group) :
    situation.Enlisted unit group ↔ unit ∈ situation.world.store.objects.crewOf group := by
  refine ⟨?_, unfolds.enlisted group there unit⟩
  rintro ⟨_, after, _, _, unfolded, _, listed, leads⟩
  exact (leads.onward unfolded.authentic).2.crew_subset there listed

end Situation

/-- Where a host leaves groups to scripts, the group of a live object is the one in which a script
created it, and there is none for a live object that no script created in a group that is there.
For a null or deleted reference the answer is a group in which someone else may have been created,
if only it lists someone deleted by now; a reference to a unit or a vehicle has an answer whenever
there is such a group. -/
theorem groups_are_found_by_membership_but_for_deleted_objects
    (situation : Situation) (unfolds : situation.Unfolds) :
    let table := situation.world.store.objects
    (∀ ref, table.Issued ref → table.isNull ref = false → ∀ group,
      table.groupOf? ref = some group ↔
        group ∈ table.liveOf .group ∧ situation.Enlisted ref group) ∧
    (∀ ref, table.isNull ref = true → ∀ group, table.groupOf? ref = some group →
      group ∈ table.liveOf .group ∧
        ∃ member, table.isNull member = true ∧ situation.Enlisted member group) ∧
    ∀ ref, table.isNull ref = true → ref.kind.valueType = .object → table.groupOf? ref = none →
      ∀ group ∈ table.liveOf .group, ∀ member, situation.Enlisted member group →
        table.isNull member = false := by
  intro table
  have consistent : table.Consistent := unfolds.authentic.objects
  refine ⟨?_, ?_, ?_⟩
  · intro ref issued live group
    have inside : ref ∈ table.live :=
      ObjectTable.mem_live.mpr (ObjectTable.mem_liveOf.mp (issued.mem_liveOf live)).1
    rw [consistent.groupOf?_of_live inside]
    exact and_congr_right fun there => (unfolds.enlisted_iff there).symm
  · intro ref null group found
    obtain ⟨there, member, inside, gone⟩ := ObjectTable.groupOf?_of_isNull null found
    exact ⟨there, member, gone, unfolds.enlisted group there member inside⟩
  · intro ref null type missing group there member enlisted
    exact consistent.isNull_of_groupOf?_eq_none null type missing there
      ((unfolds.enlisted_iff there).mp enlisted)

def Op.enlisting : List Op :=
  [.getVariable "g", .push (.text "Man"), .push (.scalar 0), .push (.scalar 0), .push (.scalar 0),
    .makeArray 3, .makeArray 0, .push (.scalar 0), .push (.text "NONE"), .makeArray 5,
    .callBinary "createUnit"]

def Op.deserting : List Op :=
  [.callNular "west", .callUnary "createGroup", .assignTo "g", .endStatement] ++ Op.enlisting ++
    [.callUnary "deleteVehicle", .endStatement] ++ Op.enlisting

/-- A host that creates a unit and destroys it before two units are created in a group and the first
of them is deleted. -/
def Operation.deserting : List Operation :=
  [.createObject .unit "Man", .destroyObject ⟨.unit, some 0⟩,
    .execute (Op.deserting.map fun op => ⟨op, Location.host⟩)]

theorem Machine.deserts : ∃ machine : Machine, Situation.Unfolds (.idle machine.world) ∧
    machine.objects.isNull ⟨.unit, some 0⟩ = true ∧
    machine.objects.live = [⟨.group, some 1⟩, ⟨.unit, some 3⟩] ∧
    machine.objects.crewOf ⟨.group, some 1⟩ = [⟨.unit, some 2⟩, ⟨.unit, some 3⟩] ∧
    machine.objects.groupOf? ⟨.unit, some 0⟩ = some ⟨.group, some 1⟩ ∧
    machine.objects.groupOf? ⟨.unit, some 3⟩ = some ⟨.group, some 1⟩ := by
  have seen : ((Machine.ofSettings { classnameChecks := false }).serveAll 40
      Operation.deserting).map (fun served =>
        (served.2.objects.isNull ⟨.unit, some 0⟩, served.2.objects.live,
          served.2.objects.crewOf ⟨.group, some 1⟩,
          served.2.objects.groupOf? ⟨.unit, some 0⟩, served.2.objects.groupOf? ⟨.unit, some 3⟩)) =
      some (true, [⟨.group, some 1⟩, ⟨.unit, some 3⟩], [⟨.unit, some 2⟩, ⟨.unit, some 3⟩],
        some ⟨.group, some 1⟩, some ⟨.group, some 1⟩) := by
    decide +kernel
  have plain : ∀ operation ∈ Operation.deserting, ∀ value ∈ operation.values,
      value.asObject? = none := by
    decide +kernel
  obtain ⟨⟨answers, machine⟩, served, same⟩ := Option.map_eq_some_iff.mp seen
  have fresh : Situation.Unfolds
      (.idle (Machine.ofSettings { classnameChecks := false }).world) := ⟨_, .refl⟩
  have unfolds : Situation.Unfolds (.idle machine.world) := by
    refine fresh.serveAll (fun _ _ => trivial) ?_ ?_ served
    · exact fun operation member value given _ =>
        ObjectTable.covers_of_other (plain operation member value given)
    · simp [Operation.deserting, World.LeavesGroups]
  exact ⟨machine, unfolds, by simpa only [Prod.mk.injEq] using same⟩

/-- The unit that is left in the group is found there because it was created there; that the unit
which the host destroyed is found there means that someone else was created there and is gone. -/
theorem remaining_member_is_found_in_its_group : ∃ situation : Situation, situation.Unfolds ∧
    situation.Enlisted ⟨.unit, some 3⟩ ⟨.group, some 1⟩ ∧
    ∃ member, situation.world.store.objects.isNull member = true ∧
      situation.Enlisted member ⟨.group, some 1⟩ := by
  obtain ⟨machine, unfolds, lost, live, -, first, second⟩ := Machine.deserts
  obtain ⟨alive, gone, -⟩ := groups_are_found_by_membership_but_for_deleted_objects _ unfolds
  obtain ⟨registered, there⟩ := ObjectTable.mem_live.mp
    (show ⟨.unit, some 3⟩ ∈ machine.objects.live by simp [live])
  have issued := ObjectTable.Issued.of_mem_registry unfolds.authentic.objects.enrolled registered
  exact ⟨.idle machine.world, unfolds, ((alive _ issued there _).mp second).2,
    (gone _ lost _ first).2⟩

/-- The unit that the host destroyed is found in the group, in which it was never created. -/
theorem destroyed_unit_is_found_in_a_group_that_it_never_joined :
    ¬∀ situation : Situation, situation.Unfolds → ∀ ref group,
      situation.world.store.objects.Issued ref →
        situation.world.store.objects.groupOf? ref = some group →
          group ∈ situation.world.store.objects.liveOf .group ∧ situation.Enlisted ref group := by
  intro membership
  obtain ⟨machine, unfolds, lost, live, crew, first, -⟩ := Machine.deserts
  have issued : machine.objects.Issued ⟨.unit, some 0⟩ := by
    rintro _ ⟨⟩
    have later := (ObjectTable.mem_live.mp
      (show ⟨.unit, some 3⟩ ∈ machine.objects.live by simp [live])).2
    obtain ⟨_, ⟨⟩, inside⟩ := ObjectTable.size_of_live later
    exact ⟨Nat.zero_lt_of_lt inside, fun there => absurd (there.symm.trans lost) nofun⟩
  obtain ⟨there, enlisted⟩ := membership _ unfolds _ _ issued first
  have member : ⟨.unit, some 0⟩ ∈ machine.objects.crewOf ⟨.group, some 1⟩ :=
    (unfolds.enlisted_iff there).mp enlisted
  simp [crew] at member

end SimScript

import SimScript.Proofs.Execution.Step
import SimScript.Proofs.Store.Contents

/-!
# Objects and sessions in a step

A move changes the objects and the sessions only where a sanctioned change asks for it,
and puts into arrays only what the step had laid hands on.
-/

namespace SimScript

/-- A script that is ended changes only itself and its variables. -/
theorem World.terminate_spares (world : World) (id : HandleId) :
    (world.terminate id).store = world.store ∧ (world.terminate id).network = world.network := by
  unfold World.terminate
  split
  · exact ⟨rfl, rfl⟩
  · split <;> exact ⟨rfl, rfl⟩

namespace Execution

variable {start exec after : Execution} {asked : Change} {given : Reply}

theorem reply_world :
    ((Effect.answer .nothing given).perform exec).world =
      { exec.world with store := (given.make exec.world.store).2 } :=
  mapTop_world _

theorem reply_store :
    ((Effect.answer .nothing given).perform exec).world.store =
      (given.make exec.world.store).2 :=
  congrArg World.store reply_world

theorem leave_store : exec.leave.world.store = exec.world.store := by
  unfold leave
  split <;> rfl

theorem leave_network : exec.leave.world.network = exec.world.network := by
  unfold leave
  split <;> rfl

theorem change_objects :
    (asked.perform exec).world.store.objects = asked.objects exec.world.store.objects := by
  cases asked with
  | nameScope name =>
      dsimp only [Change.perform]
      split <;> rfl
  | terminate id => exact congrArg Store.objects (exec.world.terminate_spares id).1
  | _ => rfl

theorem change_network {knows : Value → Prop} {supplies : CodeBlock → Prop} {recruits : Prop}
    (sanctioned : asked.Sanctioned knows supplies recruits exec) :
    (asked.perform exec).world.network = exec.world.network ∨
      exec.world.network.Asked (asked.perform exec).world.network := by
  cases asked with
  | network table => exact .inr sanctioned
  | nameScope name =>
      refine .inl ?_
      dsimp only [Change.perform]
      split <;> rfl
  | terminate id => exact .inl (exec.world.terminate_spares id).2
  | _ => exact .inl rfl

theorem move_objects (move : Move start exec after) :
    ∃ asked : Change, asked.Sanctioned start.Knows start.Supplies start.Recruits exec ∧
      after.world.store.objects = asked.objects exec.world.store.objects := by
  cases move with
  | change asked sanctioned => exact ⟨asked, sanctioned, change_objects⟩
  | reply given _ =>
      refine ⟨.nothing, trivial, ?_⟩
      rw [reply_world]
      exact Store.reply_objects given _
  | leave => exact ⟨.nothing, trivial, congrArg Store.objects leave_store⟩
  | _ => exact ⟨.nothing, trivial, rfl⟩

theorem move_network (move : Move start exec after) :
    after.world.network = exec.world.network ∨ exec.world.network.Asked after.world.network := by
  cases move with
  | change asked sanctioned => exact change_network sanctioned
  | reply given _ =>
      rw [reply_world]
      exact .inl rfl
  | leave => exact .inl leave_network
  | _ => exact .inl rfl

/-- A step changes the sessions as a script may ask for, once or several times. -/
theorem moves_network (moves : start.Moves after) :
    Relation.ReflTransGen Network.SessionTable.Asked start.world.network after.world.network := by
  induction moves with
  | refl => exact .refl
  | tail _ move induction =>
      rcases move_network move with same | asked
      · rwa [same]
      · exact induction.tail asked

/-- A move puts into arrays only what has a property, if all that the step may lay hands on has
it. -/
theorem move_contents {holds : Value → Prop}
    (others : ∀ value : Value, value.asObject? = none → holds value)
    (held : exec.world.store.Hold holds) (known : ∀ value, start.Knows value → holds value)
    (mentioned : ∀ value, exec.world.store.Mentions value → holds value)
    (move : Move start exec after) : after.world.store.Hold holds := by
  cases move with
  | change asked sanctioned =>
      cases asked with
      | write cell items =>
          exact held.write cell fun item member => known item (sanctioned.1 item member)
      | updateObjects | createObject | deleteObject =>
          exact held.withObjects fun table => Change.objects table _
      | nameScope name =>
          dsimp only [Change.perform]
          split <;> exact held
      | terminate id => exact (exec.world.terminate_spares id).1.symm ▸ held
      | _ => exact held
  | reply given sanctioned =>
      rw [reply_world]
      have known : given.Sanctioned holds :=
        sanctioned.mono fun value => Or.rec (known value) (mentioned value)
      exact (Store.reply_builds others held known).held
  | leave => exact leave_store.symm ▸ held
  | _ => exact held

end Execution

end SimScript

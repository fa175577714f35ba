import SimScript.Proofs.Machine.Queue

/-!
# Sessions of a host

A host asks for one operation after the other.  What it asks for makes a history, and no
script is lost on the way unless the host drops those that have come to their end.
-/

namespace SimScript

inductive Machine.Session (permits : Store → Value → Prop) :
    Machine → List Operation → Machine → Prop where
  | done (machine : Machine) : Session permits machine [] machine
  | next {machine middle after : Machine} {fuel : Nat} {operation : Operation} {answer : Answer}
      {rest : List Operation}
      (permitted : ∀ value ∈ operation.values, permits machine.world.store value)
      (served : machine.serve fuel operation = some (answer, middle))
      (session : Session permits middle rest after) :
      Session permits machine (operation :: rest) after

namespace Situation

variable {permits : Store → Value → Prop} {before middle after : Situation}

inductive Reaps : Situation → Situation → Prop where
  | reap (world : World) :
      Reaps (.idle world) (.idle { world with scheduler := world.scheduler.reap.2 })

theorem Retains.refl (situation : Situation) : situation.Retains situation :=
  fun handle member => ⟨handle, member, rfl⟩

theorem Retains.trans (first : before.Retains middle) (second : middle.Retains after) :
    before.Retains after := by
  intro handle member
  obtain ⟨later, kept, same⟩ := first handle member
  obtain ⟨last, stays, still⟩ := second later kept
  exact ⟨last, stays, still.trans same⟩

theorem retains_advance (world : World) (seconds : Float) :
    Retains (.idle world) (.idle (World.advance seconds world)) := by
  intro handle member
  refine ⟨handle, ?_, rfl⟩
  simpa only [Situation.handles, World.advance, Scheduler.advance_handles] using member

theorem reaps_or_retains_of_tended {world changed : World}
    (tended : world.Tended permits changed) :
    Reaps (.idle world) (.idle changed) ∨ Retains (.idle world) (.idle changed) := by
  cases tended with
  | reap => exact .inl (.reap world)
  | spawn => exact .inr fun handle member => Scheduler.present_put _ member
  | terminate id => exact .inr (World.terminate_retains id)
  | advance seconds => exact .inr (retains_advance world seconds)
  | setGlobal | newArray | newBlock | objects | equip => exact .inr (.refl _)

/-- Only where the host drops scripts is one lost. -/
theorem Next.retains (next : Next permits before after) :
    before.Reaps after ∨ before.Retains after := by
  cases next with
  | tend tended => exact reaps_or_retains_of_tended tended
  | execute => exact .inr fun handle member => ⟨handle, List.mem_cons_of_mem _ member, rfl⟩
  | beginTurn | skip | endTurn => exact .inr (.refl _)
  | @take id rest world taken found =>
      refine .inr fun handle member => ?_
      by_cases same : handle.id = taken.id
      · exact ⟨_, List.mem_cons_self, World.startKept_id.trans same.symm⟩
      · refine ⟨handle, List.mem_cons_of_mem _ ?_, rfl⟩
        exact List.mem_filter.mpr ⟨member, bne_iff_ne.mpr same⟩
  | advance running =>
      refine .inr fun handle member => ?_
      rcases List.mem_cons.mp member with rfl | others
      · exact ⟨_, List.mem_cons_self, Execution.advance_id running⟩
      · obtain ⟨later, kept, same⟩ := (Execution.advance_meets running).present others
        exact ⟨later, List.mem_cons_of_mem _ kept, same⟩
  | @keep exec rest _ =>
      refine .inr fun handle member => ?_
      rw [Situation.handles, World.keep_handles]
      rcases List.mem_cons.mp member with rfl | others
      · exact ⟨exec.handle, Scheduler.mem_of_get? Scheduler.get?_put, rfl⟩
      · exact Scheduler.present_put _ others
  | @close exec _ =>
      obtain ⟨ended, spared, _, _, scheduler⟩ := exec.closed_eq
      refine .inr fun handle member => ?_
      rw [Situation.handles, scheduler]
      rcases List.mem_cons.mp member with rfl | others
      · exact ⟨ended, Scheduler.mem_of_get? Scheduler.get?_put, spared.id⟩
      · exact Scheduler.present_put _ others

theorem Retains.follows (permits : Store → Value → Prop) : Follows permits Retains where
  refl := .refl
  trans := .trans
  works next apart := by
    apply next.retains.resolve_left
    rintro ⟨world⟩
    exact apart ⟨_, _, rfl, rfl⟩
  clock := retains_advance

end Situation

namespace Machine.Session

open Situation

variable {permits : Store → Value → Prop} {machine after : Machine} {operations : List Operation}

theorem history (session : machine.Session permits operations after) :
    History permits (.idle machine.world) (.idle after.world) := by
  induction session with
  | done => exact .refl
  | next permitted served _ induction =>
      have first := (History.follows permits).serve (fun tended _ => .single (.tend tended))
        permitted served
      exact Relation.ReflTransGen.trans first induction

theorem retains (session : machine.Session permits operations after)
    (keeps : ∀ operation ∈ operations, operation ≠ .reap) :
    Retains (.idle machine.world) (.idle after.world) := by
  induction session with
  | done => exact .refl _
  | next permitted served _ induction =>
      obtain ⟨first, rest⟩ := List.forall_mem_cons.mp keeps
      have one := (Retains.follows permits).serve (fun _ kept => kept first) permitted served
      exact one.trans (induction rest)

end Machine.Session

end SimScript

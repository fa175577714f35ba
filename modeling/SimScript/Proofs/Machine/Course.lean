import SimScript.Proofs.Machine.Reachable

/-!
# Courses of events

Between the operations of a host that run scripts a machine works by itself; all other
operations are done at once.  A course is made of both, and `orderly` says which
operations the host asks for.  An invariant of all courses needs a look at the rules by
which a machine works, and at each orderly operation that runs no scripts.
-/

namespace SimScript

/-- What is done in one go: an orderly operation that runs no scripts, or a piece of the work of the
machine. -/
inductive Situation.Proceeds (permits : Store → Value → Prop) (orderly : World → Operation → Prop) :
    Situation → Situation → Prop where
  | serve {machine after : Machine} {fuel : Nat} {operation : Operation} {answer : Answer}
      (done : operation.runs = false)
      (permitted : ∀ value ∈ operation.values, permits machine.world.store value)
      (allowed : orderly machine.world operation)
      (served : machine.serve fuel operation = some (answer, after)) :
      Proceeds permits orderly (.idle machine.world) (.idle after.world)
  | work {before after : Situation} (next : before.Next permits after)
      (works : ¬∃ world changed, before = .idle world ∧ after = .idle changed) :
      Proceeds permits orderly before after

/-- One situation leads to another, piece by piece. -/
abbrev Situation.Leads (permits : Store → Value → Prop) (orderly : World → Operation → Prop) :
    Situation → Situation → Prop :=
  Relation.ReflTransGen (Proceeds permits orderly)

/-- The situations that a host brings about that asks for orderly operations only. -/
def Situation.Arises (permits : Store → Value → Prop) (orderly : World → Operation → Prop)
    (situation : Situation) : Prop :=
  ∃ settings, Leads permits orderly (.idle (.ofSettings settings)) situation

namespace Situation

variable {permits : Store → Value → Prop} {orderly : World → Operation → Prop}
  {situation before after : Situation}

theorem Leads.follows (clock : ∀ world seconds, orderly world (.advance seconds)) :
    Follows permits (Leads permits orderly) where
  refl _ := .refl
  trans := Relation.ReflTransGen.trans
  works next apart := .single (.work next apart)
  clock world seconds := by
    let machine : Machine := ⟨world⟩
    have served : machine.serve 0 (.advance seconds) = some (.done, machine.advance seconds) := rfl
    have nothing : ∀ value ∈ (Operation.advance seconds).values, permits world.store value := nofun
    exact .single (.serve rfl nothing (clock machine.world seconds) served)

/-- Whatever orderly operation a host asks for, it is done piece by piece. -/
theorem Leads.ofServe {machine later : Machine} {fuel : Nat} {operation : Operation}
    {answer : Answer} (clock : ∀ world seconds, orderly world (.advance seconds))
    (permitted : ∀ value ∈ operation.values, permits machine.world.store value)
    (allowed : orderly machine.world operation)
    (served : machine.serve fuel operation = some (answer, later)) :
    Leads permits orderly (.idle machine.world) (.idle later.world) := by
  cases runs : operation.runs with
  | true => exact (Leads.follows clock).ran runs permitted served
  | false => exact .single (.serve runs permitted allowed served)

/-- What is true at first and kept by every piece is true in all situations that arise. -/
theorem Arises.preserved {motive : Situation → Prop} (arises : situation.Arises permits orderly)
    (fresh : ∀ settings, motive (.idle (.ofSettings settings)))
    (each : ∀ before after, motive before → Proceeds permits orderly before after → motive after) :
    motive situation := by
  obtain ⟨settings, leads⟩ := arises
  induction leads with
  | refl => exact fresh settings
  | tail _ proceeds induction => exact each _ _ induction proceeds

theorem Next.objects {motive : ObjectTable → Prop} (next : before.Next permits after)
    (works : ¬∃ world changed, before = .idle world ∧ after = .idle changed)
    (each : ∀ (start exec : Execution) (asked : Change), motive exec.world.store.objects →
      asked.Sanctioned start.Knows start.Supplies start.Recruits exec →
        motive (asked.objects exec.world.store.objects))
    (holds : motive before.world.store.objects) : motive after.world.store.objects := by
  by_cases steps : before.Steps after
  · obtain ⟨exec, batch, rfl, rfl⟩ := steps
    refine (Execution.advance_moves exec).preserves
      (motive := fun exec => motive exec.world.store.objects) holds ?_
    intro middle later kept move
    obtain ⟨asked, sanctioned, same⟩ := Execution.move_objects move
    exact same ▸ each exec middle asked kept sanctioned
  · exact (next.spares works steps).1 ▸ holds

theorem Arises.next (arises : before.Arises permits orderly)
    (proceeds : Proceeds permits orderly before after) : after.Arises permits orderly := by
  obtain ⟨settings, leads⟩ := arises
  exact ⟨settings, leads.tail proceeds⟩

theorem Arises.serveAll {machine after : Machine} {fuel : Nat} {operations : List Operation}
    {answers : List Answer} (arises : Arises permits orderly (.idle machine.world))
    (clock : ∀ world seconds, orderly world (.advance seconds))
    (permitted : ∀ operation ∈ operations, ∀ value ∈ operation.values, ∀ store,
      permits store value)
    (allowed : ∀ operation ∈ operations, ∀ world, orderly world operation)
    (served : machine.serveAll fuel operations = some (answers, after)) :
    Arises permits orderly (.idle after.world) := by
  induction operations generalizing machine answers with
  | nil =>
      obtain ⟨-, rfl⟩ := Prod.mk.inj (Option.some.inj served)
      exact arises
  | cons operation rest induction =>
      obtain ⟨⟨answer, middle⟩, first, others⟩ := Option.bind_eq_some_iff.mp served
      obtain ⟨⟨told, last⟩, later, same⟩ := Option.map_eq_some_iff.mp others
      obtain ⟨-, rfl⟩ := Prod.mk.inj same
      obtain ⟨settings, leads⟩ := arises
      have once := Leads.ofServe clock
        (fun value member => permitted operation List.mem_cons_self value member _)
        (allowed operation List.mem_cons_self _) first
      exact induction ⟨settings, leads.trans once⟩
        (fun other member => permitted other (List.mem_cons_of_mem _ member))
        (fun other member => allowed other (List.mem_cons_of_mem _ member)) later

end Situation

end SimScript

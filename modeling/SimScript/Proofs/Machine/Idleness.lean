import SimScript.Proofs.Machine.Clock
import SimScript.Proofs.Machine.Turns

/-!
# Turns in which nobody runs

A turn passes without a script only where all scripts that have not come to their end
sleep until some time that is still to come.  Then there is a first such time, and it
can be told from the handles that the scheduler keeps.
-/

namespace SimScript

/-- All scripts that have not come to their end sleep, and the scheduler knows who wakes first. -/
structure Scheduler.OnlySleepers (scheduler : Scheduler) : Prop where
  asleep : ∀ handle ∈ scheduler.handles, handle.isAbsorbed = false →
    handle.state = .suspended ∧
      ∃ time, handle.wake = some (.at time) ∧ scheduler.clock < time
  first : ∃ wake, scheduler.nextWake? = some wake ∧
    (∃ handle ∈ scheduler.handles, Scheduler.wakeTime? handle = some wake) ∧
    ∀ handle ∈ scheduler.handles, ∀ time, Scheduler.wakeTime? handle = some time → wake ≤ time

theorem World.Visits.eq_of_nobody {fuel : Nat} {world after : World}
    (made : World.Visits fuel world [] after) : after = world := by
  cases made
  rfl

theorem Handle.asleep_of_not_ready {handle : Handle} {now : Float}
    (still : handle.state ≠ .running) (waits : handle.Waits) (live : handle.isAbsorbed = false)
    (unready : ¬handle.Ready now) :
    ∃ time, Scheduler.wakeTime? handle = some time ∧ ¬now ≥ time := by
  cases state : handle.state with
  | created => exact absurd (.created state) unready
  | running => exact absurd state still
  | finished | terminated => simp [isAbsorbed, HandleState.isAbsorbed, state] at live
  | suspended =>
      obtain ⟨condition, wake⟩ := Option.isSome_iff_exists.mp (waits state)
      cases condition with
      | nextTurn => exact absurd (.nextTurn state wake) unready
      | «at» time =>
          refine ⟨time, Scheduler.wakeTime?_eq_some_iff.mpr ⟨state, wake⟩, fun come => ?_⟩
          exact unready (.awake time state wake come)

namespace Scheduler

variable {scheduler : Scheduler}

/-- Where some script sleeps until a point in time, there is a first one to wake. -/
theorem nextWake?_spec {handle : Handle} {time : Float}
    (times : ∀ handle ∈ scheduler.handles, ∀ time, wakeTime? handle = some time →
      Scalar.IsTime time)
    (member : handle ∈ scheduler.handles) (sleeps : wakeTime? handle = some time) :
    ∃ wake, scheduler.nextWake? = some wake ∧
      (∃ handle ∈ scheduler.handles, wakeTime? handle = some wake) ∧
      ∀ handle ∈ scheduler.handles, ∀ time, wakeTime? handle = some time → wake ≤ time := by
  have listed : ∀ time, time ∈ scheduler.handles.filterMap wakeTime? ↔
      ∃ handle ∈ scheduler.handles, wakeTime? handle = some time := by
    simp [List.mem_filterMap]
  have held := (listed time).mpr ⟨handle, member, sleeps⟩
  unfold nextWake?
  split
  case h_1 nobody =>
      rw [nobody] at held
      cases held
  case h_2 first rest found =>
      rw [found] at listed
      have each : ∀ time ∈ first :: rest, Scalar.IsTime time := by
        intro time inList
        obtain ⟨handle, kept, wakes⟩ := (listed time).mp inList
        exact times handle kept time wakes
      obtain ⟨chosen, least⟩ := Scalar.foldl_smaller_spec each
      refine ⟨_, rfl, (listed _).mp chosen, fun handle kept time wakes => ?_⟩
      exact least time ((listed time).mpr ⟨handle, kept, wakes⟩)

theorem reap_nextWake? : scheduler.reap.2.nextWake? = scheduler.nextWake? := by
  have awake : ∀ handle : Handle,
      (if !handle.isAbsorbed then wakeTime? handle else none) = wakeTime? handle := by
    intro handle
    cases state : handle.state <;>
      simp [Handle.isAbsorbed, HandleState.isAbsorbed, wakeTime?, state]
  simp only [nextWake?, reap, List.filterMap_filter, awake]

theorem reap_isIdle : scheduler.reap.2.isIdle = scheduler.isIdle := by
  simp only [isIdle, reap, List.all_filter]
  congr 1
  funext handle
  cases handle.isAbsorbed <;> rfl

end Scheduler

namespace Situation

variable {permits : Store → Value → Prop} {world : World} {fuel : Nat}
  {done : Performed TurnReport}

/-- A turn in which nobody runs leaves all handles as they are. -/
theorem Reachable.handles_of_ran_eq_zero (reached : Reachable permits (.idle world))
    (ran : world.runTurn fuel = some done) (nobody : done.answer.ran = 0) :
    done.world = { world with scheduler := world.scheduler.beginTurn.2 } ∧
      ∀ handle ∈ world.scheduler.handles, ¬handle.Ready world.now := by
  obtain ⟨visits, law⟩ := reached.turnLaw ran
  obtain rfl : visits = [] := List.eq_nil_of_length_eq_zero (law.ran.symm.trans nobody)
  refine ⟨law.made.eq_of_nobody, fun handle member ready => ?_⟩
  have visited := (law.ready handle member).mpr ready
  simp at visited

/-- Where nobody runs and somebody has not come to its end, there are sleepers only. -/
theorem Reachable.onlySleepers (reached : Reachable permits (.idle world))
    (ran : world.runTurn fuel = some done) (nobody : done.answer.ran = 0)
    (busy : done.world.scheduler.isIdle = false) : done.world.scheduler.OnlySleepers := by
  obtain ⟨same, unready⟩ := reached.handles_of_ran_eq_zero ran nobody
  have times := reached.wakes
  have sleeps : ∀ handle ∈ world.scheduler.handles, handle.isAbsorbed = false →
      ∃ time, Scheduler.wakeTime? handle = some time ∧ world.now < time := by
    intro handle member live
    obtain ⟨still, waits⟩ := reached.poised.kept handle member
    obtain ⟨time, wakes, ahead⟩ :=
      Handle.asleep_of_not_ready still waits live (unready handle member)
    exact ⟨time, wakes, (times handle member time wakes).lt_of_not_le reached.clock ahead⟩
  rw [same] at busy ⊢
  constructor
  · intro handle member live
    obtain ⟨time, wakes, ahead⟩ := sleeps handle member live
    obtain ⟨state, wake⟩ := Scheduler.wakeTime?_eq_some_iff.mp wakes
    exact ⟨state, time, wake, ahead⟩
  · obtain ⟨handle, member, live⟩ : ∃ handle ∈ world.scheduler.handles,
        handle.isAbsorbed = false := by
      simpa [Scheduler.isIdle, Scheduler.beginTurn] using busy
    obtain ⟨time, wakes, _⟩ := sleeps handle member live
    exact Scheduler.nextWake?_spec times member wakes

end Situation

end SimScript

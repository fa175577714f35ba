import SimScript.Proofs.Machine.Queue
import SimScript.Proofs.Scalar.Sums

/-!
# The clock

Only a host moves the clock, and only forward.  So the clock is always a point in time,
and so is every time that a script sleeps until.
-/

namespace SimScript

@[simp] theorem Handle.become_wake (handle : Handle) (state : HandleState) :
    (handle.become state).wake = handle.wake := by
  unfold become
  split <;> rfl

namespace Scheduler

variable {scheduler : Scheduler}

@[simp] theorem requeue_clock (id : HandleId) : (scheduler.requeue id).clock = scheduler.clock := by
  unfold requeue
  split <;> rfl

theorem wakeTime?_eq_some_iff {handle : Handle} {time : Float} :
    wakeTime? handle = some time ↔
      handle.state = .suspended ∧ handle.wake = some (.at time) := by
  unfold wakeTime?
  split <;> simp_all

theorem advance_isTime (seconds : Float) (time : Scalar.IsTime scheduler.clock) :
    Scalar.IsTime (scheduler.advance seconds).clock := by
  unfold advance
  split
  case isTrue positive => exact time.add (Scalar.isTime_of_pos positive)
  case isFalse => exact time

end Scheduler

theorem World.Meets.clock {world : World} {target : Option HandleId} {scheduler : Scheduler}
    (meets : world.Meets target scheduler) : scheduler.clock = world.scheduler.clock := by
  cases meets with
  | nobody | spawned => rfl
  | ended =>
      unfold World.terminate
      split
      · rfl
      · split <;> rfl

namespace Situation

variable {permits : Store → Value → Prop} {before after situation : Situation}

theorem Next.clock (next : Next permits before after) :
    after.world.now = before.world.now ∨
      ∃ world seconds, before = .idle world ∧ after = .idle (world.advance seconds) := by
  cases next with
  | @tend world _ tended =>
      cases tended with
      | advance seconds => exact .inr ⟨world, seconds, rfl, rfl⟩
      | terminate id =>
          have ended : world.Meets (some id) (world.terminate id).scheduler := .ended rfl
          exact .inl ended.clock
      | spawn | reap | setGlobal | newArray | newBlock | objects | equip => exact .inl rfl
  | advance running => exact .inl (Execution.advance_meets running).clock
  | @close exec _ =>
      obtain ⟨_, _, _, _, scheduler⟩ := exec.closed_eq
      have same : exec.closed.scheduler.clock = exec.world.scheduler.clock := by
        rw [scheduler]
        rfl
      exact .inl same
  | keep => exact .inl (Scheduler.requeue_clock _)
  | execute | beginTurn | skip | take | endTurn => exact .inl rfl

theorem Reachable.clock (reached : Reachable permits situation) :
    Scalar.IsTime situation.world.now := by
  refine reached.along (motive := fun situation => Scalar.IsTime situation.world.now) ?_ ?_
  · exact fun _ => Scalar.isTime_zero
  · intro earlier later _ time next
    rcases next.clock with same | ⟨world, seconds, rfl, rfl⟩
    · rwa [same]
    · exact Scheduler.advance_isTime seconds time

theorem Reachable.wakes (reached : Reachable permits situation) :
    ∀ handle ∈ situation.handles, ∀ time, Scheduler.wakeTime? handle = some time →
      Scalar.IsTime time := by
  refine reached.everyHandle (motive := fun _ handle =>
    ∀ time, Scheduler.wakeTime? handle = some time → Scalar.IsTime time) ?_ ?_
  · intro settings handle fresh time wakes
    obtain ⟨suspended, _⟩ := Scheduler.wakeTime?_eq_some_iff.mp wakes
    rcases fresh.begins with begins | begins <;> simp [begins] at suspended
  · intro earlier handle later reached sleeps passed time wakes
    obtain ⟨suspended, wake⟩ := Scheduler.wakeTime?_eq_some_iff.mp wakes
    cases passed with
    | stays => exact sleeps time wakes
    | starts =>
        simp at wake
    | stops _ live =>
        have ended := Handle.stopped_isAbsorbed live
        simp [Handle.isAbsorbed, suspended, HandleState.isAbsorbed] at ended
    | steps atWork running =>
        subst atWork
        cases Execution.advance_rests running with
        | runs state => simp [state] at suspended
        | ends absorbed => simp [Handle.isAbsorbed, suspended, HandleState.isAbsorbed] at absorbed
        | waits _ ahead _ =>
            obtain ⟨condition, known, ahead⟩ := ahead
            obtain rfl : condition = .at time := Option.some.inj (known.symm.trans wake)
            obtain ⟨delay, isTime, rfl⟩ := ahead
            exact (reached.advance running).clock.add isTime

end Situation

end SimScript

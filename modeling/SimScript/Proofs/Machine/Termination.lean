import Mathlib.Data.Prod.Lex
import SimScript.Proofs.Machine.Budget

/-!
# Runs come to an end

With an instruction budget every run of a handle ends.  A step that is paid for uses up
some of the budget, and a step that is free leaves a frame.  No step enters more than
one frame, so the budget also says how many steps a run can take.
-/

namespace SimScript

namespace Execution

variable {exec : Execution} {budget fuel : Nat}

/-- What is left of a budget, and how many frames there are. -/
def measure (budget : Nat) (exec : Execution) : Nat × Nat :=
  (budget - exec.handle.executed, exec.handle.stack.length)

/-- How many more steps a handle can make at most: one for each frame, and two for each unit of
work, which may enter a frame. -/
def stepsLeft (budget : Nat) (exec : Execution) : Nat :=
  2 * (budget - exec.handle.executed) + exec.handle.stack.length

theorem measure_advance (limit : exec.world.settings.instructionBudget = some budget)
    (running : exec.handle.state = .running) (inside : exec.handle.stack ≠ []) :
    Prod.Lex (· < ·) (· < ·) (exec.advance.2.measure budget) (exec.measure budget) := by
  cases advance_settled running with
  | free same shorter =>
      have executed : exec.advance.2.handle.executed = exec.handle.executed :=
        congrArg Standing.executed same
      rw [measure, measure, executed]
      exact .right _ (shorter inside)
  | paid paid _ counted =>
      have executed : exec.advance.2.handle.executed = exec.handle.executed + 1 :=
        congrArg Standing.executed counted
      have covered := executed_lt_of_charge limit paid
      apply Prod.Lex.left
      omega

theorem stepsLeft_advance (limit : exec.world.settings.instructionBudget = some budget)
    (running : exec.handle.state = .running) (layered : exec.handle.stack.Layered) :
    exec.advance.2.stepsLeft budget < exec.stepsLeft budget := by
  have deeper := (advance_turned running layered).turns.length_le
  have lex := measure_advance limit running layered.ne_nil
  -- The order alone bounds nothing: that a paid step enters one frame at most makes it a number.
  rw [Prod.lex_def] at lex
  simp only [measure, stepsLeft] at lex ⊢
  omega

end Execution

namespace Situation.Reachable

variable {permits : Store → Value → Prop} {budget fuel : Nat} {world : World} {exec : Execution}
  {batch : Option (List HandleId)} {events : Array Event}

/-- A run ends when it is given enough steps. -/
theorem run_isSome_of_stepsLeft (reached : Reachable permits (.atWork exec batch))
    (limit : exec.world.settings.instructionBudget = some budget)
    (enough : exec.stepsLeft budget < fuel) : (exec.run fuel events).isSome = true := by
  induction fuel generalizing exec events with
  | zero => omega
  | succ fuel induction =>
      unfold Execution.run
      split
      case isTrue running =>
          have layered := reached.layered exec.handle List.mem_cons_self
            (Handle.live_of_running running)
          have fewer := Execution.stepsLeft_advance limit running layered
          have next : Next permits (.atWork exec batch) (.atWork exec.advance.2 batch) :=
            .advance running
          apply induction (reached.next next) (next.settings.symm ▸ limit)
          omega
      case isFalse => rfl

/-- The budget alone says how many steps are enough. -/
theorem run_isSome (reached : Reachable permits (.atWork exec batch))
    (limit : exec.world.settings.instructionBudget = some budget)
    (enough : 2 * budget + 2 ≤ fuel) : (exec.run fuel events).isSome = true := by
  have metered := reached.metered exec.handle List.mem_cons_self
  have within := metered.within budget limit
  have depth := metered.depth
  apply reached.run_isSome_of_stepsLeft limit
  rw [Execution.stepsLeft]
  omega

theorem execute_isSome {code : CodeBlock} (reached : Reachable permits (.idle world))
    (permitted : ∀ value ∈ code.constants, permits world.store value)
    (limit : world.settings.instructionBudget = some budget) (enough : 2 * budget + 2 ≤ fuel) :
    (world.execute fuel code).isSome = true := by
  have ran : ((world.startAtOnce code).run fuel #[]).isSome = true :=
    (reached.execute permitted).run_isSome limit enough
  obtain ⟨done, found⟩ := Option.isSome_iff_exists.mp ran
  exact Option.isSome_iff_exists.mpr ⟨_, Option.bind_eq_some_iff.mpr ⟨done, found, rfl⟩⟩

theorem runBatch_isSome {ids : List HandleId} {report : TurnReport}
    (reached : Reachable permits (.turn ids world))
    (limit : world.settings.instructionBudget = some budget) (enough : 2 * budget + 2 ≤ fuel) :
    (World.runBatch fuel ids events report world).isSome = true := by
  induction ids generalizing events report world with
  | nil => rfl
  | cons id rest induction =>
      unfold World.runBatch
      split
      case h_1 gone => exact induction (reached.skip gone) limit
      case h_2 handle found =>
          have ran : (World.runHandle fuel events handle world).isSome = true :=
            (reached.take found).run_isSome limit enough
          split
          case h_1 stuck => simp [stuck] at ran
          case h_2 done exec yielded =>
              -- The handles that ran before have left the settings, and so the budget, alone.
              have history : History permits (.atWork (world.startKept handle) (some rest))
                  (.atWork exec (some rest)) ∧ exec.handle.state ≠ .running :=
                History.run yielded
              have kept := (history.1.reachable (reached.take found)).keep history.2
              exact induction kept (history.1.settings.symm ▸ limit)

theorem runTurn_isSome (reached : Reachable permits (.idle world))
    (limit : world.settings.instructionBudget = some budget) (enough : 2 * budget + 2 ≤ fuel) :
    (world.runTurn fuel).isSome = true :=
  reached.beginTurn.runBatch_isSome limit enough

theorem runUntilIdle_isSome {turns : Nat} (reached : Reachable permits (.idle world))
    (limit : world.settings.instructionBudget = some budget) (enough : 2 * budget + 2 ≤ fuel) :
    (world.runUntilIdle fuel turns).isSome = true := by
  induction turns generalizing world with
  | zero => rfl
  | succ turns induction =>
      obtain ⟨first, ran⟩ := Option.isSome_iff_exists.mp (reached.runTurn_isSome limit enough)
      have history : History permits (.idle world) (.idle first.world) := History.runTurn ran
      have turned := history.reachable reached
      have same : first.world.settings.instructionBudget = some budget :=
        history.settings.symm ▸ limit
      unfold World.runUntilIdle
      split
      · rfl
      · simp only [ran, Option.bind_eq_bind, Option.bind_some]
        split
        · rfl
        case h_2 wake _ _ =>
            have later := induction (turned.tend (.advance (wake - first.world.now))) same
            obtain ⟨rest, found⟩ := Option.isSome_iff_exists.mp later
            simp [found]
        case h_3 =>
            obtain ⟨rest, found⟩ := Option.isSome_iff_exists.mp (induction turned same)
            simp [found]

end Situation.Reachable

/-- With a budget of `budget`: every step makes the rest of the budget smaller, or keeps it and
makes the frames fewer; so a run of a handle ends, within twice the budget and two steps, and every
operation of the host has an answer. -/
theorem runs_end_within_the_budget (permits : Store → Value → Prop) (budget : Nat) :
    (∀ exec batch, Situation.Reachable permits (.atWork exec batch) →
      exec.world.settings.instructionBudget = some budget → exec.handle.state = .running →
      Prod.Lex (· < ·) (· < ·)
        (budget - exec.advance.2.handle.executed, exec.advance.2.handle.stack.length)
        (budget - exec.handle.executed, exec.handle.stack.length)) ∧
    (∀ exec batch events fuel, Situation.Reachable permits (.atWork exec batch) →
      exec.world.settings.instructionBudget = some budget → 2 * budget + 2 ≤ fuel →
      (exec.run fuel events).isSome = true) ∧
    (∀ (machine : Machine) operation fuel, machine.Reachable permits →
      (∀ value ∈ operation.values, permits machine.world.store value) →
      machine.world.settings.instructionBudget = some budget → 2 * budget + 2 ≤ fuel →
      (machine.serve fuel operation).isSome = true) := by
  refine ⟨?_, ?_, ?_⟩
  · intro exec batch reached limit running
    have layered := reached.layered exec.handle List.mem_cons_self
      (Handle.live_of_running running)
    exact Execution.measure_advance limit running layered.ne_nil
  · intro exec batch events fuel reached limit enough
    exact reached.run_isSome limit enough
  · intro machine operation fuel reached permitted limit enough
    have idle := reached.idle
    cases operation with
    | execute code =>
        have ran := idle.execute_isSome permitted limit enough
        simpa [Machine.serve, Machine.execute] using ran
    | runTurn =>
        have ran := idle.runTurn_isSome limit enough
        simpa [Machine.serve, Machine.runTurn] using ran
    | tick seconds =>
        have ran := (idle.tend (.advance seconds)).runTurn_isSome limit enough
        simpa [Machine.serve, Machine.tick, Machine.advance, Machine.mapWorld,
          Machine.runTurn] using ran
    | runUntilIdle turns =>
        have ran : (machine.world.runUntilIdle fuel turns).isSome = true :=
          idle.runUntilIdle_isSome limit enough
        simpa [Machine.serve, Machine.runUntilIdle] using ran
    | _ => rfl

/-- A loop that would never end by itself: with a budget of five, twelve steps are enough. -/
theorem endless_loop_ends_within_the_budget :
    let block : CodeBlock := [⟨.push (.boolean true), Location.host⟩]
    let code : CodeBlock := [⟨.push (.code 0), Location.host⟩,
      ⟨.callUnary "while", Location.host⟩, ⟨.push (.code 0), Location.host⟩,
      ⟨.callBinary "do", Location.host⟩]
    let machine := (Machine.ofSettings { instructionBudget := some 5 }).mapWorld fun world =>
      { world with store := (world.store.newBlock block).2 }
    let exec := machine.world.startAtOnce code
    Prod.Lex (· < ·) (· < ·)
        (5 - exec.advance.2.handle.executed, exec.advance.2.handle.stack.length)
        (5 - exec.handle.executed, exec.handle.stack.length) ∧
      (exec.run 12 #[]).isSome = true ∧ (machine.serve 12 (.execute code)).isSome = true := by
  intro block code machine exec
  have reached : machine.Reachable fun _ _ => True := by
    have fresh : (Machine.ofSettings { instructionBudget := some 5 }).Reachable fun _ _ => True :=
      .fresh _
    have served : (Machine.ofSettings { instructionBudget := some 5 }).serve 0 (.newBlock block) =
        some (.value (some (.code 0)), machine) := rfl
    exact fresh.serve (fun _ _ => trivial) served
  have limit : machine.world.settings.instructionBudget = some 5 := rfl
  have atWork : Situation.Reachable (fun _ _ => True) (.atWork exec none) :=
    reached.idle.execute fun _ _ => trivial
  obtain ⟨decreases, runs, serves⟩ := runs_end_within_the_budget (fun _ _ => True) 5
  exact ⟨decreases exec none atWork limit rfl, runs exec none #[] 12 atWork limit (by omega),
    serves machine (.execute code) 12 reached (fun _ _ => trivial) limit (by omega)⟩

end SimScript

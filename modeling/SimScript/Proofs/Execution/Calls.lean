import SimScript.Proofs.Execution.Step

/-!
# Calls of commands that follow one plan

Where a name stands for one command only, and that command follows one plan, a call of it
with operands that it takes comes to what the plan comes to.
-/

namespace SimScript.Execution

variable {exec : Execution} {plan : Plan} {name label : String} {left right : Value}
  {first second : ValueType}

theorem attempt_of_plan_error {abort : Abort}
    (result : (plan exec exec.site).result = .error abort) :
    exec.attempt (follow plan) = (⟨.error abort, (plan exec exec.site).events⟩, exec) := by
  simp only [attempt, follow, Report.bind_of_error result]

theorem attempt_of_plan_ok {effect : Effect}
    (result : (plan exec exec.site).result = .ok effect) :
    exec.attempt (follow plan) =
      (⟨.ok (), (plan exec exec.site).events⟩, effect.perform exec) := by
  simp only [attempt, follow, Report.bind_of_ok result, Report.pure_apply, List.append_nil]

theorem callBinary_of_plan {body : Value → Value → Command}
    (only : Command.binariesOf name = [⟨label, first, second, body⟩])
    (follows : (body left right).Follows (.plan plan))
    (fits : first.accepts left.type = true ∧ second.accepts right.type = true) :
    exec.callBinary name left right = exec.attempt (follow plan) := by
  unfold callBinary
  rw [only]
  simp only [Command.binaryFor?, List.find?, fits, Bool.and_self]
  exact follows exec

theorem callBinary_of_unfit {body : Value → Value → Command}
    (only : Command.binariesOf name = [⟨label, first, second, body⟩])
    (unfit : ¬(first.accepts left.type = true ∧ second.accepts right.type = true)) :
    exec.callBinary name left right = exec.refuse
      (Fault.unknownInputTypeCombinationBinary name (some left.type) right.type) := by
  have refused : (first.accepts left.type && second.accepts right.type) = false := by
    simpa using unfit
  unfold callBinary
  rw [only]
  simp only [Command.binaryFor?, List.find?, refused]

theorem refuse_cases (message : Message) :
    (exec.refuse message).1.events = [⟨message, exec.location⟩] ∧
      ((exec.refuse message).2 = exec ∨ (exec.refuse message).2 = exec.pushOperand .nil) := by
  cases grave : Abort.forSeverity message.severity with
  | some abort => simp [refuse, attempt, Report.recover, Report.raise, Bind.bind, grave, site]
  | none => simp [refuse, attempt, Report.recover, Report.raise, Bind.bind, Pure.pure, grave, site]

theorem refuse_world (message : Message) : (exec.refuse message).2.world = exec.world := by
  rcases (exec.refuse_cases message).2 with same | same
  · rw [same]
  · rw [same]
    exact mapTop_world _

theorem answer_world (asked : Change) (value : Value) :
    ((Effect.answer asked (.value value)).perform exec).world = (asked.perform exec).world :=
  mapTop_world _

theorem callUnary_of_plan {body : Value → Command}
    (only : Command.unariesOf name = [⟨label, second, body⟩])
    (follows : (body right).Follows (.plan plan)) (fits : second.accepts right.type = true) :
    exec.callUnary name right = exec.attempt (follow plan) := by
  unfold callUnary
  rw [only]
  simp only [Command.unaryFor?, List.find?, fits]
  exact follows exec

end SimScript.Execution

import SimScript.Proofs.Diagnostics.Logging
import SimScript.Proofs.Execution.Step

/-!
# Severity and control flow

A step gives up the handle when it has reported one fatal fault, the statement when
it has reported one error, and nothing when it has reported neither; it never reports
two grave faults.  With all severities enabled the counts of the log tell which.
-/

namespace SimScript

/-- The events of a severity are those that demand what only this severity demands. -/
theorem Abort.countP_severity {severity : Severity} {abort : Abort}
    (only : ∀ other, Abort.forSeverity other = some abort ↔ other = severity)
    (events : List Event) :
    events.countP (fun event => event.severity = severity) =
      (Abort.demanded events).count abort := by
  rw [List.count, Abort.demanded, List.countP_filterMap]
  apply List.countP_congr
  intro event _
  have demands := only event.severity
  cases demanded : Abort.forSeverity event.severity <;> simp_all

theorem Abort.countP_fatal (events : List Event) :
    events.countP (fun event => event.severity = .fatal) =
      (Abort.demanded events).count .handle :=
  countP_severity (by intro other; cases other <;> simp [forSeverity]) events

theorem Abort.countP_error (events : List Event) :
    events.countP (fun event => event.severity = .error) =
      (Abort.demanded events).count .statement :=
  countP_severity (by intro other; cases other <;> simp [forSeverity]) events

/-- With all severities enabled the log counts every event. -/
theorem Logger.emitAll_emitted {logger : Logger}
    (enabled : logger.levels = LogLevels.everything) (events : List Event)
    (severity : Severity) :
    (logger.emitAll events.toArray).emitted.get severity = logger.emitted.get severity +
      events.countP fun event => event.severity = severity := by
  rw [emitAll_eq_offer, offer_emitted, enabled, List.toList_toArray, List.countP_map]
  congr 1
  apply List.countP_congr
  intro event _
  rw [Function.comp_apply, decide_eq_true_iff, decide_eq_true_iff]
  simp [LogLevels.everything, Event.line]

/-- With all severities enabled, whatever a step does: it gives up the handle exactly when the log
has counted one fatal event more and no error, the statement exactly when it has counted one error
more and no fatal event, and nothing exactly when it has counted neither. -/
theorem step_gives_up_what_is_logged (exec : Execution) (logger : Logger)
    (enabled : logger.levels = LogLevels.everything) :
    let result := exec.step.1.result
    let logged := (logger.emitAll exec.step.1.events.toArray).emitted
    (result = .error .handle ↔
      logged.get .fatal = logger.emitted.get .fatal + 1 ∧
        logged.get .error = logger.emitted.get .error) ∧
    (result = .error .statement ↔
      logged.get .error = logger.emitted.get .error + 1 ∧
        logged.get .fatal = logger.emitted.get .fatal) ∧
    (result = .ok () ↔
      logged.get .error = logger.emitted.get .error ∧
        logged.get .fatal = logger.emitted.get .fatal) := by
  have graded : Abort.demanded exec.step.1.events = Abort.given exec.step.1.result :=
    exec.step_proper.graded
  simp only [Logger.emitAll_emitted enabled, Abort.countP_fatal, Abort.countP_error, graded]
  -- What is given up decides both counts, so the three cases exclude each other.
  cases exec.step.1.result with
  | ok done => simp [Abort.given]
  | error abort => cases abort <;> simp [Abort.given]

/-- A binary command without operands: an error, and no more than the statement is given up. -/
theorem missing_operands_give_up_the_statement :
    let created := (World.ofSettings {}).newHandle [⟨.callBinary "+", Location.host⟩] []
      .scheduled Location.host
    let exec := Execution.resume created.2 (created.1.become .running)
    let logger : Logger := {}
    logger.levels = LogLevels.everything ∧
      exec.step.1.result = .error .statement ∧
      (logger.emitAll exec.step.1.events.toArray).emitted.get .error = 1 ∧
      (logger.emitAll exec.step.1.events.toArray).emitted.get .fatal = 0 := by
  intro created exec logger
  have failed : exec.step.1.result = .error .statement := rfl
  exact ⟨rfl, failed, (step_gives_up_what_is_logged exec logger rfl).2.1.mp failed⟩

end SimScript

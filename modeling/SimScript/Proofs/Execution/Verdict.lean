import SimScript.Proofs.Execution.Environment

/-!
# What a script comes to

A script has a result only once it has finished, and a trace only once it has been given
up.  Steps leave both alone, but for the one that brings the script to its end.
-/

namespace SimScript

def Handle.verdict (handle : Handle) : Value × Option StackTrace :=
  (handle.result, handle.trace)

@[simp] theorem Handle.become_verdict (handle : Handle) (state : HandleState) :
    (handle.become state).verdict = handle.verdict := by
  unfold become
  split <;> rfl

namespace Execution

variable {exec middle after : Execution} {frame : CallFrame} {target : Option HandleId}

def GivesUp (exec : Execution) : Prop :=
  exec.step.1.result = .error .handle

/-- The script has come to nothing new, or it has finished. -/
inductive Concludes (exec after : Execution) : Prop where
  | silent (same : after.handle.verdict = exec.handle.verdict)
  | finished (state : after.handle.state = .finished)
      (trace : after.handle.trace = exec.handle.trace)

/-! ## Parts of a step -/

@[simp] theorem mapTop_verdict (change : CallFrame → CallFrame) :
    (exec.mapTop change).handle.verdict = exec.handle.verdict := by
  unfold mapTop
  split <;> rfl

theorem leave_verdict : exec.leave.handle.verdict = exec.handle.verdict := by
  unfold leave
  split <;> rfl

theorem terminate_verdict : exec.terminate.handle.verdict = exec.handle.verdict :=
  Handle.become_verdict _ _

theorem suspend_verdict (wake : WakeCondition) :
    (exec.suspend wake).handle.verdict = exec.handle.verdict :=
  Handle.become_verdict _ _

theorem change_verdict (change : Change) :
    (change.perform exec).handle.verdict = exec.handle.verdict := by
  cases change with
  | nameScope name =>
      dsimp only [Change.perform]
      split <;> rfl
  | _ => rfl

theorem Computes.verdict (computed : exec.Computes after) :
    after.handle.verdict = exec.handle.verdict := by
  obtain ⟨stack, operands, store⟩ := computed
  rfl

theorem placed_verdict {instruction : Instruction} {moved : CallFrame} :
    (exec.placed instruction moved).handle.verdict = exec.handle.verdict := by
  have moving : (exec.charged.mapTop fun _ => moved).handle.verdict = exec.charged.handle.verdict :=
    mapTop_verdict _
  exact moving

theorem abandonStatement_verdict :
    exec.abandonStatement.handle.verdict = exec.handle.verdict :=
  mapTop_verdict _

namespace Concludes

theorem after_silent (concludes : middle.Concludes after)
    (same : middle.handle.verdict = exec.handle.verdict) : exec.Concludes after := by
  obtain ⟨_, trace⟩ := Prod.mk.inj same
  cases concludes with
  | silent later => exact .silent (later.trans same)
  | finished state kept => exact .finished state (kept.trans trace)

theorem finish (running : exec.handle.state = .running) (value : Value) :
    exec.Concludes (exec.finish value) := by
  apply Concludes.finished
  · simp [Execution.finish, Handle.become, running, HandleState.canBecome,
      HandleState.isAbsorbed]
  · exact congrArg Prod.snd (Handle.become_verdict { exec.handle with result := value } .finished)

theorem deliver (running : exec.handle.state = .running) (value : Value) :
    exec.Concludes (exec.deliver value) := by
  unfold Execution.deliver
  split
  · exact .finish running value
  · split <;> exact .silent rfl

theorem leave_deliver (running : exec.handle.state = .running) (value : Value) :
    exec.Concludes (exec.leave.deliver value) :=
  (deliver ((leave_state exec).trans running) value).after_silent leave_verdict

theorem complete (running : exec.handle.state = .running) :
    exec.Concludes (exec.complete frame) := by
  have once := (leave_state exec).trans running
  have twice := (leave_state exec.leave).trans once
  unfold Execution.complete
  dsimp only
  split
  · exact leave_deliver running _
  · have inner : exec.leave.leave.handle.verdict = exec.handle.verdict :=
      leave_verdict.trans leave_verdict
    split
    · exact (leave_deliver twice _).after_silent inner
    · exact (deliver twice _).after_silent inner
  · exact leave_deliver running _

theorem loops (loops : exec.Loops after) (running : exec.handle.state = .running) :
    exec.Concludes after := by
  cases loops with
  | leave => exact leave_deliver running _
  | wait _ _ => exact .silent ((suspend_verdict _).trans (mapTop_verdict _))
  | enter _ _ => exact .silent (mapTop_verdict _)

theorem does (does : exec.Does target after) (running : exec.handle.state = .running) :
    exec.Concludes after := by
  cases does with
  | compute computed => exact .silent computed.verdict
  | assign computed name value => exact .silent computed.verdict
  | declare computed declared => exact .silent computed.verdict
  | @perform middle effect computed sanctioned _ =>
      have before : middle.handle.state = .running := computed.state.trans running
      refine after_silent ?_ computed.verdict
      cases effect with
      | answer change reply => exact .silent ((mapTop_verdict _).trans (change_verdict change))
      | enter kind code environment bindings => exact .silent rfl
      | breakOut depth value =>
          have left : (middle.leaveTo depth).handle.state = .running := before
          exact (deliver left value).after_silent rfl
      | suspend wake => exact .silent ((suspend_verdict _).trans (mapTop_verdict _))

end Concludes

/-! ## Whole steps -/

/-- A step comes to nothing new or finishes the script, whatever it gives up. -/
theorem step_concludes (running : exec.handle.state = .running) :
    exec.Concludes exec.step.2 := by
  have steps := exec.step_cases
  generalize exec.step = outcome at steps ⊢
  have comes : ∀ {done : Execution → Prop} {failed : Execution → Prop},
      outcome.Comes done failed → (∀ after, done after → exec.Concludes after) →
      (∀ after, failed after → exec.Concludes after) → exec.Concludes outcome.2 := by
    intro done failed comes goes stops
    cases result : outcome.1.result with
    | ok => exact goes _ (comes.done result)
    | error abort => exact stops _ (comes.failed abort result)
  cases steps with
  | terminate requested => exact .silent terminate_verdict
  | finish outside => exact .finish running .nil
  | complete top exhausted block => exact .complete running
  | refuse due unpaid => exact .silent rfl
  | loop due paid isLoop ends =>
      refine comes ends (fun after goes => ?_) fun after same => .silent (by rw [same]; rfl)
      have charged : exec.charged.handle.state = .running := running
      exact (Concludes.loops goes charged).after_silent rfl
  | dispatch due paid fetched ends =>
      refine comes ends (fun after goes => ?_) fun after computed => ?_
      · exact (Concludes.does goes (placed_state.trans running)).after_silent placed_verdict
      · exact .silent (computed.verdict.trans placed_verdict)

/-- A step that does not give up the script comes to nothing new or finishes it. -/
theorem advance_concludes (running : exec.handle.state = .running) (goesOn : ¬exec.GivesUp) :
    exec.Concludes exec.advance.2 := by
  have concludes := step_concludes running
  unfold GivesUp at goesOn
  suffices settles : exec.Concludes exec.settle.2 by
    cases settles with
    | silent same => exact .silent same
    | finished state trace => exact .finished state trace
  unfold settle
  dsimp only
  split
  case h_1 => exact concludes
  case h_2 result =>
      cases concludes with
      | silent same => exact .silent (abandonStatement_verdict.trans same)
      | finished state trace =>
          have kept : exec.step.2.abandonStatement.handle.trace = exec.step.2.handle.trace :=
            congrArg Prod.snd abandonStatement_verdict
          exact .finished ((abandonStatement_state _).trans state) (kept.trans trace)
  case h_3 result => exact absurd result goesOn

theorem settle_of_givesUp (givesUp : exec.GivesUp) :
    exec.settle = (exec.step.1.events ++
      [⟨Fault.stacktrace exec.step.2.trace.text, exec.step.2.location⟩],
      exec.step.2.abandonHandle) := by
  have result : exec.step.1.result = .error .handle := givesUp
  simp only [settle, result]

end Execution

end SimScript

import SimScript.Proofs.Execution.Account

/-!
# Environments, and where a script may suspend

A frame has the environment of the frame that entered it, or a stricter one.  The frame
on top therefore speaks for all: where it is scheduled, every frame is.  A loop that waits
was entered where a script may suspend, so it may still do so when it is on top again.
-/

namespace SimScript

/-- No frame is less strict than the one below it or than `root`, and a loop that waits was entered
where a script may suspend. -/
structure CallStack.Inherits (allowed : Bool) (root : Environment) (stack : CallStack) :
    Prop where
  order : stack.Pairwise fun above below =>
    below.environment = .unscheduled → above.environment = .unscheduled
  waits : ∀ frame ∈ stack, frame.kind.waits = true →
    allowed = true ∧ frame.environment = .scheduled
  rooted : root = .unscheduled → ∀ frame ∈ stack, frame.environment = .unscheduled

namespace CallStack.Inherits

variable {allowed : Bool} {root : Environment} {outer : CallStack} {frame changed : CallFrame}

theorem nil : Inherits allowed root [] :=
  ⟨.nil, by simp, by simp⟩

theorem ofBlock (block : frame.kind = .block) : Inherits allowed frame.environment [frame] := by
  constructor
  · exact List.pairwise_singleton _ _
  · simp [block, FrameKind.waits]
  · simp

/-- Where nothing is asked of the root, less is asked of the frames. -/
theorem unrooted (inherits : Inherits allowed root outer) :
    Inherits allowed .scheduled outer :=
  ⟨inherits.order, inherits.waits, by simp⟩

theorem tail (inherits : Inherits allowed root (frame :: outer)) :
    Inherits allowed root outer := by
  constructor
  · exact inherits.order.of_cons
  · exact fun other member => inherits.waits other (List.mem_cons_of_mem _ member)
  · exact fun strict other member => inherits.rooted strict other (List.mem_cons_of_mem _ member)

theorem change (inherits : Inherits allowed root (frame :: outer))
    (environment : changed.environment = frame.environment)
    (waits : changed.kind.waits = frame.kind.waits) :
    Inherits allowed root (changed :: outer) := by
  obtain ⟨order, waiting, rooted⟩ := inherits
  rw [List.pairwise_cons] at order
  rw [List.forall_mem_cons] at waiting
  constructor
  · rw [List.pairwise_cons, environment]
    exact order
  · rw [List.forall_mem_cons, environment, waits]
    exact waiting
  · intro strict
    have confined := rooted strict
    rw [List.forall_mem_cons] at confined ⊢
    rwa [environment]

theorem enter {entered : CallFrame} (inherits : Inherits allowed root (frame :: outer))
    (environment : entered.environment = frame.environment ∨ entered.environment = .unscheduled)
    (waits : entered.kind.waits = true → allowed = true ∧ entered.environment = .scheduled) :
    Inherits allowed root (entered :: frame :: outer) := by
  have stricter : frame.environment = .unscheduled → entered.environment = .unscheduled := by
    intro strict
    rcases environment with same | unscheduled
    · exact same.trans strict
    · exact unscheduled
  constructor
  · refine List.pairwise_cons.mpr ⟨?_, inherits.order⟩
    intro below member strict
    apply stricter
    rcases List.mem_cons.mp member with rfl | deeper
    · exact strict
    · exact List.rel_of_pairwise_cons inherits.order deeper strict
  · exact List.forall_mem_cons.mpr ⟨waits, inherits.waits⟩
  · intro strict
    have confined := inherits.rooted strict
    exact List.forall_mem_cons.mpr ⟨stricter (confined frame List.mem_cons_self), confined⟩

/-- The frame on top speaks for all. -/
theorem allScheduled (inherits : Inherits allowed root (frame :: outer))
    (scheduled : frame.environment = .scheduled) :
    ∀ other ∈ frame :: outer, other.environment = .scheduled := by
  intro other member
  rcases List.mem_cons.mp member with rfl | deeper
  · exact scheduled
  · cases strict : other.environment with
    | scheduled => rfl
    | unscheduled =>
        have top := List.rel_of_pairwise_cons inherits.order deeper strict
        simp [scheduled] at top

end CallStack.Inherits

namespace Execution

variable {start exec middle after : Execution} {frame : CallFrame} {outer : CallStack}
  {allowed : Bool} {root : Environment}

theorem environment_eq (stack : exec.handle.stack = frame :: outer) :
    exec.environment = frame.environment := by
  simp [environment, Handle.top?, stack]

theorem change_settings (change : Change) (exec : Execution) :
    (change.perform exec).world.settings = exec.world.settings := by
  cases change with
  | nameScope name =>
      dsimp only [Change.perform]
      split <;> rfl
  | terminate id =>
      dsimp only [Change.perform, World.terminate]
      split
      · rfl
      · split <;> rfl
  | _ => rfl

/-! ## Environments along a step -/

/-- The frames of an execution inherit their environments, under the settings of its world. -/
structure Inherits (allowed : Bool) (root : Environment) (exec : Execution) : Prop where
  settings : exec.world.settings.allowSuspension = allowed
  stack : exec.handle.stack.Inherits allowed root

namespace Inherits

theorem mapTop {change : CallFrame → CallFrame} (inherits : Inherits allowed root exec)
    (environment : ∀ frame, (change frame).environment = frame.environment)
    (waits : ∀ frame, (change frame).kind.waits = frame.kind.waits) :
    Inherits allowed root (exec.mapTop change) := by
  obtain ⟨settings, stack⟩ := inherits
  unfold Execution.mapTop
  split
  · exact ⟨settings, stack⟩
  case h_2 frame outer inside =>
      rw [inside] at stack
      exact ⟨settings, stack.change (environment frame) (waits frame)⟩

theorem leave (inherits : Inherits allowed root exec) : Inherits allowed root exec.leave := by
  obtain ⟨settings, stack⟩ := inherits
  unfold Execution.leave
  split
  · exact ⟨settings, stack⟩
  case h_2 frame outer inside =>
      rw [inside] at stack
      exact ⟨settings, stack.tail⟩

theorem move (inherits : Inherits allowed root exec) (move : Move start exec after) :
    Inherits allowed root after := by
  obtain ⟨settings, stack⟩ := inherits
  cases move with
  | record handle location keeps => exact ⟨settings, keeps.stack ▸ stack⟩
  | adjust inside adjusts =>
      rw [inside] at stack
      exact ⟨settings, stack.change adjusts.environment adjusts.waits⟩
  | bind known bound => exact ⟨settings, stack⟩
  | change asked _ =>
      constructor
      · rw [change_settings, settings]
      · rw [change_stack]
        exact stack
  | reply given _ =>
      have stocked : Inherits allowed root
          (exec.withStore (given.make exec.world.store).2) := ⟨settings, stack⟩
      exact stocked.mapTop (fun _ => rfl) fun _ => rfl
  | enter inside enterable =>
      obtain ⟨frame, outer, entering⟩ := List.exists_cons_of_ne_nil inside
      have environment := enterable.inherits
      have waits := enterable.waits
      rw [environment_eq entering] at environment
      rw [settings] at waits
      refine ⟨settings, ?_⟩
      dsimp only [Execution.enter, withStack, withScopes]
      rw [entering] at stack ⊢
      exact stack.enter environment waits
  | leave => exact Inherits.leave ⟨settings, stack⟩
  | terminate => exact ⟨settings, by simpa using stack⟩
  | finish => exact ⟨settings, by simpa [Execution.finish] using stack⟩
  | suspend => exact ⟨settings, by simpa [Execution.suspend] using stack⟩
  | log events => exact ⟨settings, stack⟩

theorem advance (inherits : Inherits allowed root exec) :
    Inherits allowed root exec.advance.2 :=
  exec.advance_moves.preserves inherits fun _ _ kept made => kept.move made

end Inherits

/-! ## How a step leaves the handle -/

/-- The handle goes on; or it waits, on top a loop that waits or else where a script may suspend; or
it has come to its end. -/
inductive Rests (exec : Execution) : Prop where
  | runs (state : exec.handle.state = .running)
  | waits (state : exec.handle.state = .suspended)
      (wake : ∃ condition, exec.handle.wake = some condition ∧ condition.IsAhead exec.world.now)
      (may : exec.canSuspend = true ∨
        ∃ frame, exec.handle.top? = some frame ∧ frame.kind.waits = true)
  | ends (absorbed : exec.handle.isAbsorbed = true)

@[simp] theorem mapTop_state (change : CallFrame → CallFrame) :
    (exec.mapTop change).handle.state = exec.handle.state := by
  unfold mapTop
  split <;> rfl

theorem deliver_rests {value : Value} (running : exec.handle.state = .running) :
    (exec.deliver value).Rests := by
  unfold deliver
  split
  · apply Rests.ends
    simp [finish, Handle.become, running, HandleState.canBecome, Handle.isAbsorbed,
      HandleState.isAbsorbed]
  · split <;> exact .runs running

theorem suspend_rests {wake : WakeCondition} (running : exec.handle.state = .running)
    (ahead : wake.IsAhead exec.world.now)
    (may : exec.canSuspend = true ∨
      ∃ frame, exec.handle.top? = some frame ∧ frame.kind.waits = true) :
    (exec.suspend wake).Rests := by
  have possible : exec.handle.state.canBecome .suspended = true := by
    rw [running]
    rfl
  have same : (exec.suspend wake).handle =
      { exec.handle with wake := some wake, state := .suspended } := by
    simp [suspend, Handle.become, possible]
  apply Rests.waits
  · rw [same]
  · exact ⟨wake, by rw [same], ahead⟩
  · simp only [canSuspend, environment, Handle.top?, same]
    exact may

theorem complete_rests (running : exec.handle.state = .running) :
    (exec.complete frame).Rests := by
  have once := (leave_state exec).trans running
  have twice := (leave_state exec.leave).trans once
  have thrice := (leave_state exec.leave.leave).trans twice
  unfold complete
  dsimp only
  split
  · exact deliver_rests once
  · split
    · exact deliver_rests thrice
    · exact deliver_rests twice
  · exact deliver_rests once

theorem Loops.rests (loops : exec.Loops after) (running : exec.handle.state = .running)
    (inside : exec.handle.stack ≠ []) : after.Rests := by
  cases loops with
  | leave => exact deliver_rests ((leave_state exec).trans running)
  | @wait kind _ waits =>
      obtain ⟨frame, outer, stack⟩ := List.exists_cons_of_ne_nil inside
      apply suspend_rests
      · rw [setLoop, mapTop_state, running]
      · trivial
      · refine .inr ⟨{ frame with kind, delivered := none }, ?_, waits⟩
        rw [Handle.top?, setLoop_stack stack, List.head?_cons]
  | enter _ _ =>
      apply Rests.runs
      exact (mapTop_state _).trans running

theorem change_state (change : Change) (exec : Execution) :
    (change.perform exec).handle.state = exec.handle.state := by
  cases change with
  | nameScope name =>
      dsimp only [Change.perform]
      split <;> rfl
  | _ => rfl

theorem canSuspend_congr {changed : CallFrame} {rest : CallStack}
    (stack : exec.handle.stack = frame :: outer) (later : after.handle.stack = changed :: rest)
    (settings : after.world.settings = exec.world.settings)
    (environment : changed.environment = frame.environment) :
    after.canSuspend = exec.canSuspend := by
  rw [canSuspend, canSuspend, settings, environment_eq stack, environment_eq later, environment]

theorem pushOperand_canSuspend (value : Value) (inside : exec.handle.stack ≠ []) :
    (exec.pushOperand value).canSuspend = exec.canSuspend := by
  obtain ⟨frame, outer, stack⟩ := List.exists_cons_of_ne_nil inside
  apply canSuspend_congr stack (pushOperand_stack stack)
  · rw [pushOperand, mapTop_world]
  · rfl

theorem Does.rests {target : Option HandleId} (does : exec.Does target after)
    (running : exec.handle.state = .running) : after.Rests := by
  cases does with
  | compute computed => exact .runs (computed.state.trans running)
  | assign computed name value => exact .runs (computed.state.trans running)
  | declare computed declared => exact .runs (computed.state.trans running)
  | @perform middle effect computed sanctioned _ =>
      have before := computed.state.trans running
      cases effect with
      | answer change reply =>
          apply Rests.runs
          exact (mapTop_state _).trans ((change_state change middle).trans before)
      | enter kind code environment bindings => exact .runs before
      | breakOut depth value => exact deliver_rests before
      | suspend wake =>
          change ((middle.pushOperand .nil).suspend wake).Rests
          apply suspend_rests
          · exact (mapTop_state _).trans before
          · rw [pushOperand, mapTop_world]
            exact sanctioned.2
          · obtain ⟨frame, outer, stack⟩ := computed.inside
            left
            rw [pushOperand_canSuspend _ (by simp [stack])]
            exact sanctioned.1

theorem abandonStatement_state (exec : Execution) :
    exec.abandonStatement.handle.state = exec.handle.state :=
  mapTop_state _

theorem Rests.logged (rests : exec.Rests) (events : List Event) : (exec.logged events).Rests := by
  cases rests with
  | runs running => exact .runs running
  | waits state wake may => exact .waits state wake may
  | ends absorbed => exact .ends absorbed

/-- However a step goes, the handle goes on, waits where it may, or has come to its end. -/
theorem advance_rests (running : exec.handle.state = .running) : exec.advance.2.Rests := by
  obtain ⟨after, advances, same⟩ := exec.advance_cases
  rw [same]
  apply Rests.logged
  cases advances with
  | terminate requested => exact .ends (terminate_isAbsorbed running)
  | finish outside =>
      apply Rests.ends
      simp [finish, Handle.become, running, HandleState.canBecome, Handle.isAbsorbed,
        HandleState.isAbsorbed]
  | complete top exhausted block => exact complete_rests running
  | refuse due unpaid => exact .ends (terminate_isAbsorbed running)
  | loop due paid loops done =>
      obtain ⟨outer, stack⟩ := due.stack
      apply done.rests running
      change exec.handle.stack ≠ []
      simp [stack]
  | dispatch due paid fetched done => exact done.rests (placed_state.trans running)
  | @giveUpStatement failed given fails =>
      exact .runs ((abandonStatement_state failed).trans (fails.state.trans running))
  | giveUpHandle fails => exact .ends (terminate_isAbsorbed (fails.state.trans running))

end Execution

end SimScript

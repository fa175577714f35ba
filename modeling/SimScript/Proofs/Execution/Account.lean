import SimScript.Proofs.Execution.Frames

/-!
# What a step costs, and which scripts it meets

A step that does any work is paid for by one unit.  A step that is free leaves frames
and does nothing else that would be of interest to anybody.  Of the other scripts a
step meets at most one: it starts a new one, or ends the one that it is aimed at.
-/

namespace SimScript

/-- What most parts of a step leave alone: the settings, the other scripts, and the number and the
count of the handle at work. -/
structure Standing where
  settings : Settings
  scheduler : Scheduler
  id : HandleId
  executed : Nat

def Standing.withScheduler (standing : Standing) (scheduler : Scheduler) : Standing :=
  { standing with scheduler }

def Standing.counted (standing : Standing) : Standing :=
  { standing with executed := standing.executed + 1 }

def Execution.standing (exec : Execution) : Standing where
  settings := exec.world.settings
  scheduler := exec.world.scheduler
  id := exec.handle.id
  executed := exec.handle.executed

/-- What a step may do to the scripts that the scheduler keeps. -/
inductive World.Meets (world : World) (target : Option HandleId) : Scheduler → Prop where
  | nobody : Meets world target world.scheduler
  | spawned (code : CodeBlock) (bindings : Bindings) (origin : Location) :
      Meets world target (world.spawn code bindings origin).2.scheduler
  | ended {id : HandleId} (aimed : target = some id) :
      Meets world target (world.terminate id).scheduler

/-- The script that the next step ends by `terminate`. -/
def Execution.target? (exec : Execution) : Option HandleId :=
  if exec.handle.terminateRequested || exec.charge?.isNone then none
  else
    exec.handle.top?.bind fun frame =>
      frame.fetch?.bind fun (instruction, moved) => moved.target? instruction.op

/-- How a step has been settled. -/
inductive Execution.Settled (exec after : Execution) : Prop where
  | free (same : after.standing = exec.standing)
      (shorter : exec.handle.stack ≠ [] →
        after.handle.stack.length < exec.handle.stack.length)
  | paid {scheduler : Scheduler} (paid : exec.charge? = some exec.charged)
      (meets : exec.world.Meets exec.target? scheduler)
      (counted : after.standing = exec.standing.counted.withScheduler scheduler)

@[simp] theorem Handle.become_executed (handle : Handle) (state : HandleState) :
    (handle.become state).executed = handle.executed := by
  unfold become
  split <;> rfl

namespace Execution

variable {exec middle after : Execution} {frame : CallFrame} {outer : CallStack}
  {target : Option HandleId}

/-! ## Parts of a step that leave the standing alone -/

@[simp] theorem mapTop_standing (change : CallFrame → CallFrame) :
    (exec.mapTop change).standing = exec.standing := by
  unfold mapTop
  split <;> rfl

@[simp] theorem pushOperand_standing (value : Value) :
    (exec.pushOperand value).standing = exec.standing :=
  mapTop_standing _

@[simp] theorem leave_standing : exec.leave.standing = exec.standing := by
  unfold leave
  split <;> rfl

@[simp] theorem leaveTo_standing (depth : Nat) :
    (exec.leaveTo depth).standing = exec.standing := rfl

@[simp] theorem finish_standing (value : Value) :
    (exec.finish value).standing = exec.standing := by
  simp [standing, finish]

@[simp] theorem suspend_standing (wake : WakeCondition) :
    (exec.suspend wake).standing = exec.standing := by
  simp [standing, suspend]

@[simp] theorem terminate_standing : exec.terminate.standing = exec.standing := by
  simp [standing, terminate, withStack, withScopes]

@[simp] theorem deliver_standing (value : Value) :
    (exec.deliver value).standing = exec.standing := by
  unfold deliver
  split
  · exact finish_standing value
  · split <;> rfl

@[simp] theorem complete_standing : (exec.complete frame).standing = exec.standing := by
  unfold complete
  dsimp only
  split
  · simp
  · split <;> simp
  · simp

@[simp] theorem abandonStatement_standing : exec.abandonStatement.standing = exec.standing := by
  simp [abandonStatement, leaveLoops]

@[simp] theorem abandonHandle_standing : exec.abandonHandle.standing = exec.standing := by
  have ended : exec.terminate.standing = exec.standing := terminate_standing
  exact ended

theorem Computes.standing (computed : exec.Computes after) : after.standing = exec.standing := by
  obtain ⟨stack, operands, store⟩ := computed
  rfl

theorem Loops.standing (loops : exec.Loops after) : after.standing = exec.standing := by
  cases loops with
  | leave => simp [leaveLoop]
  | wait _ => simp [setLoop]
  | @enter kind scopes code _ _ =>
      have set : (exec.setLoop kind).standing = exec.standing := mapTop_standing _
      exact set

@[simp] theorem placed_world {instruction : Instruction} {moved : CallFrame} :
    (exec.placed instruction moved).world = exec.world :=
  mapTop_world _

@[simp] theorem placed_standing {instruction : Instruction} {moved : CallFrame} :
    (exec.placed instruction moved).standing = exec.standing.counted := by
  have moving : (exec.charged.mapTop fun _ => moved).standing = exec.charged.standing :=
    mapTop_standing _
  exact moving

/-! ## Whole steps -/

/-- The world as far as other scripts are concerned, before an instruction is carried out. -/
theorem Computes.meets {scheduler : Scheduler} (computed : exec.Computes middle)
    (meets : middle.world.Meets target scheduler) : exec.world.Meets target scheduler := by
  obtain ⟨stack, operands, store⟩ := computed
  cases meets with
  | nobody => exact .nobody
  | spawned code bindings origin => exact .spawned code bindings origin
  | @ended id aimed =>
      have same : ((exec.withStore store).world.terminate id).scheduler =
          (exec.world.terminate id).scheduler := by
        unfold World.terminate
        dsimp only [withStore]
        split
        · rfl
        · split <;> rfl
      have ends : exec.world.Meets target (exec.world.terminate id).scheduler := .ended aimed
      rw [← same] at ends
      exact ends

theorem change_standing {change : Change}
    (ends : ∀ id, change = .terminate id → target = some id) :
    ∃ scheduler, exec.world.Meets target scheduler ∧
      (change.perform exec).standing = exec.standing.withScheduler scheduler := by
  cases change with
  | spawn code bindings => exact ⟨_, .spawned code bindings exec.location, rfl⟩
  | terminate id =>
      refine ⟨_, .ended (ends id rfl), ?_⟩
      simp only [Change.perform, standing, World.terminate]
      split
      · rfl
      · split <;> rfl
  | nameScope name =>
      refine ⟨_, .nobody, ?_⟩
      dsimp only [Change.perform]
      split <;> rfl
  | _ => exact ⟨_, .nobody, rfl⟩

theorem Does.standing (does : exec.Does target after) :
    ∃ scheduler, exec.world.Meets target scheduler ∧
      after.standing = exec.standing.withScheduler scheduler := by
  cases does with
  | compute computed => exact ⟨_, .nobody, computed.standing⟩
  | assign computed name value => exact ⟨_, .nobody, computed.standing⟩
  | declare computed declared => exact ⟨_, .nobody, computed.standing⟩
  | @perform middle effect computed sanctioned ends =>
      have before := computed.standing
      cases effect with
      | answer change reply =>
          have aimed : ∀ id, change = .terminate id → target = some id := by
            rintro id rfl
            exact ends id rfl
          obtain ⟨scheduler, meets, changed⟩ := change_standing aimed
          refine ⟨scheduler, computed.meets meets, ?_⟩
          rw [← before]
          exact (pushOperand_standing _).trans changed
      | enter kind code environment bindings => exact ⟨_, .nobody, before⟩
      | breakOut depth value =>
          have delivered : ((middle.leaveTo depth).deliver value).standing = exec.standing := by
            simpa using before
          exact ⟨_, .nobody, delivered⟩
      | suspend wake =>
          have waiting : ((middle.pushOperand .nil).suspend wake).standing = exec.standing := by
            simpa using before
          exact ⟨_, .nobody, waiting⟩

theorem Fails.standing (fails : exec.Fails after) :
    exec.charge? = some exec.charged ∧
      after.standing = exec.standing.counted := by
  cases fails with
  | loop due paid loops => exact ⟨paid, rfl⟩
  | dispatch due paid fetched computed => exact ⟨paid, computed.standing.trans placed_standing⟩

theorem target?_of_fetch {moved : CallFrame} {instruction : Instruction} (due : exec.Due frame)
    (paid : exec.charge? = some exec.charged)
    (fetched : frame.fetch? = some (instruction, moved)) :
    exec.target? = moved.target? instruction.op := by
  simp [target?, due.proceeds, due.top, paid, fetched]

theorem Settled.logged (settled : exec.Settled after) (events : List Event) :
    exec.Settled (after.logged events) := by
  cases settled with
  | free same shorter => exact .free same shorter
  | paid paid meets counted => exact .paid paid meets counted

theorem advance_settled (running : exec.handle.state = .running) :
    exec.Settled exec.advance.2 := by
  obtain ⟨after, advances, same⟩ := exec.advance_cases
  rw [same]
  apply Settled.logged
  cases advances with
  | terminate requested =>
      exact .free terminate_standing fun inside =>
        (terminate_fallen running inside).falls.length_lt
  | finish outside => exact .free (finish_standing _) fun inside => absurd outside inside
  | complete top exhausted block =>
      exact .free complete_standing fun inside =>
        (complete_fallen running inside).falls.length_lt
  | refuse due unpaid =>
      exact .free abandonHandle_standing fun inside =>
        (abandonHandle_fallen running inside).falls.length_lt
  | loop due paid loops done => exact .paid paid .nobody done.standing
  | dispatch due paid fetched done =>
      obtain ⟨scheduler, meets, changed⟩ := done.standing
      rw [placed_standing] at changed
      rw [placed_world, ← target?_of_fetch due paid fetched] at meets
      exact .paid paid meets changed
  | giveUpStatement given fails =>
      obtain ⟨paid, counted⟩ := fails.standing
      exact .paid paid .nobody (abandonStatement_standing.trans counted)
  | giveUpHandle fails =>
      obtain ⟨paid, counted⟩ := fails.standing
      exact .paid paid .nobody (abandonHandle_standing.trans counted)

/-- Every step meets one other script at most. -/
theorem advance_meets (running : exec.handle.state = .running) :
    exec.world.Meets exec.target? exec.advance.2.world.scheduler := by
  cases advance_settled running with
  | free same _ =>
      have scheduler : exec.advance.2.world.scheduler = exec.world.scheduler :=
        congrArg Standing.scheduler same
      rw [scheduler]
      exact .nobody
  | @paid scheduler _ meets counted =>
      have after : exec.advance.2.world.scheduler = scheduler :=
        congrArg Standing.scheduler counted
      rw [after]
      exact meets

end Execution

end SimScript

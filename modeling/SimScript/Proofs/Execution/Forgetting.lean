import SimScript.Proofs.Execution.Account

/-!
# Steps among fewer scripts

A scheduler may forget scripts that have come to their end.  A step looks at other
scripts only where it asks for their end or ends them, so it is the same step among
fewer scripts, unless the script that it wants to end is forgotten.
-/

namespace SimScript

/-! ## Forgetting scripts -/

def Scheduler.without (scheduler : Scheduler) (gone : HandleId → Bool) : Scheduler :=
  { scheduler with handles := scheduler.handles.filter fun handle => !gone handle.id }

def World.without (world : World) (gone : HandleId → Bool) : World :=
  { world with scheduler := world.scheduler.without gone }

def Execution.without (exec : Execution) (gone : HandleId → Bool) : Execution :=
  { exec with world := exec.world.without gone }

/-- The same world without some of its scripts and with another log. -/
def World.screened (world : World) (gone : HandleId → Bool) (log : Logger → Logger) : World :=
  { world.without gone with logger := log world.logger }

def Execution.screened (exec : Execution) (gone : HandleId → Bool) (log : Logger → Logger) :
    Execution :=
  { exec with world := exec.world.screened gone log }

def Outcome.screened (outcome : Outcome) (gone : HandleId → Bool) (log : Logger → Logger) :
    Outcome :=
  (outcome.1, outcome.2.screened gone log)

namespace Scheduler

variable {scheduler : Scheduler} {gone : HandleId → Bool} {id : HandleId} {handle : Handle}

theorem get?_without (kept : gone id = false) :
    (scheduler.without gone).get? id = scheduler.get? id := by
  rw [get?, get?, without, List.find?_filter]
  congr 1
  funext handle
  by_cases same : handle.id = id
  · simp [same, kept]
  · simp [same]

theorem get?_without_of_gone (lost : gone id = true) :
    (scheduler.without gone).get? id = none := by
  apply List.find?_eq_none.mpr
  intro handle member same
  have number : handle.id = id := by simpa using same
  have kept := (List.mem_filter.mp member).2
  simp [number, lost] at kept

theorem put_without (kept : gone handle.id = false) :
    (scheduler.without gone).put handle = (scheduler.put handle).without gone := by
  simp only [put, without, List.filter_append, List.filter_filter, Bool.and_comm]
  simp [kept]

theorem enqueue_without (kept : gone handle.id = false) :
    (scheduler.without gone).enqueue handle = (scheduler.enqueue handle).without gone := by
  rw [enqueue, put_without kept]
  rfl

end Scheduler

namespace World

variable {world : World} {gone : HandleId → Bool} {log : Logger → Logger} {id : HandleId}

theorem stateOf?_screened (kept : gone id = false) :
    (world.screened gone log).stateOf? id = world.stateOf? id :=
  congrArg (Option.map Handle.state) (Scheduler.get?_without kept)

theorem terminate_screened (kept : gone id = false) :
    (world.screened gone log).terminate id = (world.terminate id).screened gone log := by
  have found : (world.screened gone log).scheduler.get? id = world.scheduler.get? id :=
    Scheduler.get?_without kept
  unfold terminate
  rw [found]
  split
  · rfl
  case h_2 handle held =>
      split
      · rfl
      · have number : handle.id = id := Scheduler.id_of_get? held
        have stays : gone ({ handle.become .terminated with stack := [] } : Handle).id = false := by
          simp [number, kept]
        have put : (world.scheduler.without gone).put _ = _ := Scheduler.put_without stays
        exact congrArg (fun scheduler =>
          { world with
            scopes := handle.stack.unwind world.scopes
            scheduler
            logger := log world.logger }) put

theorem spawn_screened {code : CodeBlock} {bindings : Bindings} {origin : Location}
    (new : gone (world.scheduler.lastId + 1) = false) :
    ((world.screened gone log).spawn code bindings origin).2 =
      (world.spawn code bindings origin).2.screened gone log := by
  let created := world.newHandle code bindings .scheduled origin
  have queued : (created.2.scheduler.without gone).enqueue created.1 =
      (created.2.scheduler.enqueue created.1).without gone := Scheduler.enqueue_without new
  exact congrArg (fun scheduler =>
    { created.2 with scheduler, logger := log world.logger }) queued

end World

namespace Execution

variable {exec : Execution} {gone : HandleId → Bool} {log : Logger → Logger}

@[simp] theorem screened_handle : (exec.screened gone log).handle = exec.handle := rfl

@[simp] theorem screened_world :
    (exec.screened gone log).world = exec.world.screened gone log := rfl

@[simp] theorem screened_location : (exec.screened gone log).location = exec.location := rfl

@[simp] theorem screened_withScopes (scopes : Scopes) :
    (exec.screened gone log).withScopes scopes = (exec.withScopes scopes).screened gone log := rfl

@[simp] theorem screened_withStore (store : Store) :
    (exec.screened gone log).withStore store = (exec.withStore store).screened gone log := rfl

@[simp] theorem screened_mapTop (change : CallFrame → CallFrame) :
    (exec.screened gone log).mapTop change = (exec.mapTop change).screened gone log := by
  unfold mapTop
  rw [screened_handle]
  split <;> rfl

@[simp] theorem screened_pushOperand (value : Value) :
    (exec.screened gone log).pushOperand value = (exec.pushOperand value).screened gone log :=
  screened_mapTop _

@[simp] theorem screened_give (reply : Reply) :
    (exec.screened gone log).give reply = (exec.give reply).screened gone log := by
  let made := reply.make exec.world.store
  have pushed : ((exec.withStore made.2).screened gone log).pushOperand made.1 =
      ((exec.withStore made.2).pushOperand made.1).screened gone log := screened_pushOperand _
  exact pushed

@[simp] theorem screened_enterBlock (code : CodeBlock) :
    (exec.screened gone log).enterBlock code = (exec.enterBlock code).screened gone log := rfl

@[simp] theorem screened_leave : (exec.screened gone log).leave = exec.leave.screened gone log := by
  unfold leave
  rw [screened_handle]
  split <;> rfl

@[simp] theorem screened_deliver (value : Value) :
    (exec.screened gone log).deliver value = (exec.deliver value).screened gone log := by
  unfold deliver
  rw [screened_handle]
  split
  · rfl
  · split <;> rfl

@[simp] theorem screened_suspend (wake : WakeCondition) :
    (exec.screened gone log).suspend wake = (exec.suspend wake).screened gone log := rfl

theorem screened_complete (frame : CallFrame) :
    (exec.screened gone log).complete frame = (exec.complete frame).screened gone log := by
  unfold complete
  dsimp only
  rw [screened_leave]
  split
  · exact screened_deliver _
  · rw [screened_leave, screened_handle]
    split
    · rw [screened_leave, screened_deliver]
    · exact screened_deliver _
  · exact screened_deliver _

end Execution

/-! ## Effects -/

theorem Change.perform_screened {change : Change} {exec : Execution} {gone : HandleId → Bool}
    {log : Logger → Logger}
    (new : gone (exec.world.scheduler.lastId + 1) = false)
    (spared : ∀ id, change = .terminate id → gone id = false) :
    change.perform (exec.screened gone log) = (change.perform exec).screened gone log := by
  cases change with
  | spawn code bindings =>
      exact congrArg (fun world => { exec with world }) (World.spawn_screened new)
  | terminate id =>
      exact congrArg (fun world => { exec with world }) (World.terminate_screened (spared id rfl))
  | nameScope name =>
      have named :
          (exec.screened gone log).world.scopes.setName (exec.screened gone log).scope name =
            exec.world.scopes.setName exec.scope name := rfl
      unfold perform
      dsimp only
      rw [named]
      split <;> rfl
  | _ => rfl

theorem Effect.perform_screened {effect : Effect} {exec : Execution} {gone : HandleId → Bool}
    {log : Logger → Logger}
    (new : gone (exec.world.scheduler.lastId + 1) = false)
    (spared : ∀ id, effect.ends? = some id → gone id = false) :
    effect.perform (exec.screened gone log) = (effect.perform exec).screened gone log := by
  cases effect with
  | answer change reply =>
      have changed : change.perform (exec.screened gone log) =
          (change.perform exec).screened gone log := by
        apply Change.perform_screened new
        rintro id rfl
        exact spared id rfl
      rw [perform_answer, perform_answer, changed, Execution.screened_give]
  | enter kind code environment bindings => rfl
  | breakOut depth value =>
      have delivered : ((exec.leaveTo depth).screened gone log).deliver value =
          ((exec.leaveTo depth).deliver value).screened gone log := Execution.screened_deliver value
      exact delivered
  | suspend wake =>
      have pushed : (exec.screened gone log).pushOperand .nil =
          (exec.pushOperand .nil).screened gone log :=
        Execution.screened_pushOperand _
      exact congrArg (Execution.suspend · wake) pushed

/-! ## Work -/

def Checked.screened (checked : Checked Execution) (gone : HandleId → Bool)
    (log : Logger → Logger) : Checked Execution :=
  ⟨checked.result.map fun exec => exec.screened gone log, checked.events⟩

/-- Work comes to the same, but for the scripts that are forgotten and the log. -/
def Report.Forgets (gone : HandleId → Bool) (log : Logger → Logger)
    (fewer all : Report Execution) : Prop :=
  ∀ site logger, fewer { site with logger } = (all site).screened gone log

namespace Report.Forgets

variable {gone : HandleId → Bool} {log : Logger → Logger} {α : Type} {exec few : Execution}

theorem pure (same : few = exec.screened gone log) :
    Forgets gone log (Pure.pure few) (Pure.pure exec) := by
  intro site logger
  rw [same]
  rfl

theorem bindAsked {first : Report α} {fewer all : α → Report Execution} (blind : first.Blind)
    (each : ∀ site value, (first site).result = .ok value →
      Forgets gone log (fewer value) (all value)) :
    Forgets gone log (first >>= fewer) (first >>= all) := by
  intro site logger
  have same : first { site with logger } = first site := blind site logger
  cases result : (first site).result with
  | error abort =>
      rw [Report.bind_of_error (same ▸ result), Report.bind_of_error result, same]
      rfl
  | ok value =>
      have later : fewer value (Site.after { site with logger } (first site).events) =
          (all value (site.after (first site).events)).screened gone log :=
        each site value result (site.after _) _
      rw [Report.bind_of_ok (same ▸ result), Report.bind_of_ok result, same, later]
      rfl

theorem bind {first : Report α} {fewer all : α → Report Execution} (blind : first.Blind)
    (each : ∀ value, Forgets gone log (fewer value) (all value)) :
    Forgets gone log (first >>= fewer) (first >>= all) :=
  bindAsked blind fun _ value _ => each value

theorem recover (message : Message) (same : few = exec.screened gone log) :
    Forgets gone log (Report.recover message few) (Report.recover message exec) :=
  .bind (fun _ _ => rfl) fun _ => .pure same

theorem ite {condition : Prop} [Decidable condition] {fewer all less more : Report Execution}
    (holds : Forgets gone log fewer all) (fails : Forgets gone log less more) :
    Forgets gone log (if condition then fewer else less) (if condition then all else more) := by
  split
  · exact holds
  · exact fails

end Report.Forgets

namespace Execution

variable {exec : Execution} {gone : HandleId → Bool} {log : Logger → Logger}

theorem attempt_screened {work : Execution → Report Execution}
    (forgets : Report.Forgets gone log (work (exec.screened gone log)) (work exec)) :
    (exec.screened gone log).attempt work = (exec.attempt work).screened gone log := by
  have same : work (exec.screened gone log) (exec.screened gone log).site =
      (work exec exec.site).screened gone log := forgets exec.site (log exec.world.logger)
  unfold attempt
  dsimp only
  rw [same]
  cases result : (work exec exec.site).result <;> simp [Checked.screened, result, Except.map]
  all_goals rfl

/-! ## Loops -/

theorem screened_setLoop (kind : FrameKind) :
    (exec.screened gone log).setLoop kind = (exec.setLoop kind).screened gone log :=
  screened_mapTop _

theorem screened_leaveLoop :
    (exec.screened gone log).leaveLoop = exec.leaveLoop.screened gone log := by
  rw [leaveLoop, screened_leave, screened_deliver, leaveLoop]

theorem screened_enterLoop (kind : FrameKind) (scopes : Scopes) (code : CodeBlock) :
    (((exec.screened gone log).setLoop kind).withScopes scopes).enterBlock code =
      (((exec.setLoop kind).withScopes scopes).enterBlock code).screened gone log := by
  rw [screened_setLoop, screened_withScopes, screened_enterBlock]

theorem stepWhile_forgets {condition body : CodeBlock} {phase : LoopPhase}
    (delivered : Option Value) :
    Report.Forgets gone log ((exec.screened gone log).stepWhile condition body phase delivered)
      (exec.stepWhile condition body phase delivered) := by
  have enters : ∀ kind code, ((exec.screened gone log).setLoop kind).enterBlock code =
      ((exec.setLoop kind).enterBlock code).screened gone log := by
    intro kind code
    rw [screened_setLoop, screened_enterBlock]
  cases phase with
  | start | body => exact .pure (enters _ _)
  | condition =>
      refine .bind (loopCondition_graded _ _).blind fun holds => ?_
      exact .ite (.pure (enters _ _)) (.pure screened_leaveLoop)

theorem enterFor_forgets {variableName : String} {current stop step : Float}
    {body : CodeBlock} :
    Report.Forgets gone log ((exec.screened gone log).enterFor variableName current stop step body)
      (exec.enterFor variableName current stop step body) := by
  have declared : (exec.screened gone log).world.scopes.declare (exec.screened gone log).scope
      variableName (.scalar current) =
        exec.world.scopes.declare exec.scope variableName (.scalar current) := rfl
  unfold enterFor
  rw [declared]
  split
  · exact .recover _ rfl
  · exact .pure (screened_enterLoop _ _ _)

theorem stepFor_forgets {variableName : String} {current stop step : Float}
    {body : CodeBlock} {phase : LoopPhase} :
    Report.Forgets gone log
      ((exec.screened gone log).stepFor variableName current stop step body phase)
      (exec.stepFor variableName current stop step body phase) := by
  have noted : ∀ fault, Report.Forgets gone log
      (Report.note fault >>= fun _ => Pure.pure (exec.screened gone log).leaveLoop)
      (Report.note fault >>= fun _ => Pure.pure exec.leaveLoop) :=
    fun fault => .bind (fun _ _ => rfl) fun _ => .pure screened_leaveLoop
  have held : ((exec.screened gone log).world.scopes.get? (exec.screened gone log).scope).bind
      (fun scope => scope.get? variableName) =
        (exec.world.scopes.get? exec.scope).bind fun scope => scope.get? variableName := rfl
  unfold stepFor
  refine .ite (.ite enterFor_forgets (noted _)) ?_
  rw [held]
  split
  · exact .ite (noted _) (.ite enterFor_forgets (.pure screened_leaveLoop))
  · exact noted _

theorem stepForEach_forgets {items : List Value} {index : Nat} {body : CodeBlock} :
    Report.Forgets gone log ((exec.screened gone log).stepForEach items index body)
      (exec.stepForEach items index body) := by
  have declared : ∀ item, (do
      let scopes ←
        (exec.screened gone log).world.scopes.declare (exec.screened gone log).scope "_x" item
      scopes.declare (exec.screened gone log).scope "_forEachIndex" (.ofCount index)) = (do
      let scopes ← exec.world.scopes.declare exec.scope "_x" item
      scopes.declare exec.scope "_forEachIndex" (.ofCount index)) := fun _ => rfl
  unfold stepForEach
  split
  · exact .pure screened_leaveLoop
  case h_2 item _ =>
      dsimp only
      rw [declared]
      split
      · exact .recover _ rfl
      · exact .pure (screened_enterLoop _ _ _)

theorem stepWaitUntil_forgets {condition : CodeBlock} {phase : LoopPhase}
    (delivered : Option Value) :
    Report.Forgets gone log ((exec.screened gone log).stepWaitUntil condition phase delivered)
      (exec.stepWaitUntil condition phase delivered) := by
  cases phase with
  | start | body =>
      refine .pure ?_
      rw [screened_setLoop, screened_enterBlock]
  | condition =>
      refine .bind (loopCondition_graded _ _).blind fun holds => ?_
      refine .ite (.pure screened_leaveLoop) (.pure ?_)
      rw [screened_setLoop, screened_suspend]

theorem stepLoop_forgets (frame : CallFrame) :
    Report.Forgets gone log ((exec.screened gone log).stepLoop frame) (exec.stepLoop frame) := by
  unfold stepLoop
  split
  · exact stepWhile_forgets _
  · exact stepFor_forgets
  · exact stepForEach_forgets
  · exact stepWaitUntil_forgets _
  all_goals exact .pure rfl

/-! ## Instructions -/

theorem screened_popOperand : (exec.screened gone log).popOperand =
    (exec.popOperand.1, exec.popOperand.2.screened gone log) := by
  unfold popOperand
  rw [screened_handle]
  split
  · rfl
  · rw [screened_mapTop]

theorem readVariable_forgets (name : String) :
    Report.Forgets gone log (readVariable name (exec.screened gone log))
      (readVariable name exec) := by
  have resolved : (exec.screened gone log).resolve name = exec.resolve name := rfl
  unfold readVariable
  rw [resolved]
  split
  · exact .pure (screened_pushOperand _)
  · exact .recover _ (screened_pushOperand _)

/-- What is assigned is the same, and the rest of the work may depend on it. -/
theorem popAssigned_forgets {next : Value × Execution → Report Execution}
    (each : ∀ value after, Report.Forgets gone log (next (value, after.screened gone log))
      (next (value, after))) :
    Report.Forgets gone log ((exec.screened gone log).popAssigned >>= next)
      (exec.popAssigned >>= next) := by
  unfold popAssigned
  rw [screened_popOperand]
  cases exec.popOperand with
  | mk found after =>
      cases found with
      | some value =>
          rw [pure_bind, pure_bind]
          exact each value after
      | none =>
          dsimp only [Report.recover]
          rw [bind_assoc, bind_assoc]
          refine .bind (fun _ _ => rfl) fun _ => ?_
          rw [pure_bind, pure_bind]
          exact each .nil exec

theorem assignVariable_forgets (name : String) :
    Report.Forgets gone log (assignVariable name (exec.screened gone log))
      (assignVariable name exec) :=
  popAssigned_forgets fun _ _ => .pure rfl

theorem assignLocal_forgets (name : String) :
    Report.Forgets gone log (assignLocal name (exec.screened gone log))
      (assignLocal name exec) := by
  refine popAssigned_forgets fun value after => ?_
  have declared :
      (after.screened gone log).world.scopes.declare (after.screened gone log).scope name value =
        after.world.scopes.declare after.scope name value := rfl
  dsimp only
  rw [declared]
  split
  · exact .pure rfl
  · exact .recover _ rfl

theorem makeArray_forgets (count : Nat) :
    Report.Forgets gone log (makeArray count (exec.screened gone log)) (makeArray count exec) := by
  unfold makeArray
  rw [screened_handle]
  split
  case h_1 items frame _ =>
      have made : ∀ store value,
          ((((exec.screened gone log).withStore store).mapTop fun _ => frame).pushOperand value) =
            (((exec.withStore store).mapTop fun _ => frame).pushOperand value).screened gone
              log := by
        intro store value
        rw [screened_withStore, screened_mapTop, screened_pushOperand]
      exact .pure (made _ _)
  case h_2 => exact .recover _ rfl

end Execution

/-! ## Commands -/

/-- Some scripts that have come to their end, or that the scheduler does not keep any more. -/
structure Scheduler.MayForget (scheduler : Scheduler) (gone : HandleId → Bool) : Prop where
  ended : ∀ handle ∈ scheduler.handles, gone handle.id = true → handle.isAbsorbed = true
  issued : ∀ id, gone id = true → id ≤ scheduler.lastId

theorem Scheduler.MayForget.new {scheduler : Scheduler} {gone : HandleId → Bool}
    (forgets : scheduler.MayForget gone) : gone (scheduler.lastId + 1) = false := by
  by_contra lost
  exact Nat.not_succ_le_self _ (forgets.issued _ (by simpa using lost))

section Operands

variable {exec : Execution} {gone : HandleId → Bool} {log : Logger → Logger} {right : Value}

theorem Plan.terminate_screened
    (spared : ∀ id, Command.handleOf? right = some id → gone id = false) :
    terminate right (exec.screened gone log) = terminate right exec := by
  unfold terminate
  split
  · rfl
  case h_2 id named =>
      have state : (exec.screened gone log).world.stateOf? id = exec.world.stateOf? id :=
        World.stateOf?_screened (spared id named)
      rw [state]
      rfl

/-- A script that is forgotten counts as one that has come to its end. -/
theorem Command.isDone_screened (forgets : exec.world.scheduler.MayForget gone) :
    isDone (exec.screened gone log) right = isDone exec right := by
  unfold isDone
  split
  · rfl
  case h_2 id named =>
      rw [Execution.screened_handle]
      congr 1
      cases lost : gone id with
      | false =>
          have state : (exec.screened gone log).world.stateOf? id = exec.world.stateOf? id :=
            World.stateOf?_screened lost
          rw [state]
      | true =>
          have nobody : (exec.screened gone log).world.stateOf? id = none :=
            congrArg (Option.map Handle.state) (Scheduler.get?_without_of_gone lost)
          rw [nobody, World.stateOf?]
          cases found : exec.world.scheduler.get? id with
          | none => rfl
          | some handle =>
              have number : handle.id = id := Scheduler.id_of_get? found
              have member : handle ∈ exec.world.scheduler.handles :=
                List.mem_of_find?_eq_some found
              have absorbed := forgets.ended handle member (number.symm ▸ lost)
              exact absorbed.symm

end Operands

namespace Execution

variable {exec : Execution} {gone : HandleId → Bool} {log : Logger → Logger} {name : String}

/-- A plan that is the same among fewer scripts, and ends none that is forgotten. -/
theorem follow_screened {made : Plan} {targets : List HandleId}
    (forgets : exec.world.scheduler.MayForget gone) (blind : (made exec).Blind)
    (same : made (exec.screened gone log) = made exec)
    (ends : (Design.plan made).EndsOnly targets exec)
    (spared : ∀ id ∈ targets, gone id = false) :
    (exec.screened gone log).attempt (follow made) =
      (exec.attempt (follow made)).screened gone log := by
  apply attempt_screened
  unfold follow
  rw [same]
  refine .bindAsked blind fun site effect asked => .pure ?_
  apply Effect.perform_screened forgets.new
  exact fun id ended => spared id (ends site effect asked id ended)

theorem fulfil_screened {design : Design} {recruits : Prop} {operands : List Value}
    {targets : List HandleId} (forgets : exec.world.scheduler.MayForget gone)
    (single : design.IsPlan) (sanctioned : design.Sanctioned recruits exec operands)
    (ends : design.EndsOnly targets exec) (spared : ∀ id ∈ targets, gone id = false)
    (same : ∀ made, design = .plan made → made (exec.screened gone log) = made exec) :
    (exec.screened gone log).fulfil design = (exec.fulfil design).screened gone log := by
  cases design with
  | series => cases single
  | plan made => exact follow_screened forgets sanctioned.blind (same made rfl) ends spared

theorem followAll_screened {plans : List Plan}
    (same : ∀ plan ∈ plans, ∀ exec : Execution, plan (exec.screened gone log) = plan exec)
    (only : ∀ plan ∈ plans, ∀ exec, (plan exec).Runs Effect.OnlyObjects) :
    (exec.screened gone log).followAll plans = (exec.followAll plans).screened gone log := by
  induction plans generalizing exec with
  | nil => exact congrArg (Prod.mk _) (screened_pushOperand _)
  | cons plan rest induction =>
      obtain ⟨unaware, others⟩ := List.forall_mem_cons.mp same
      obtain ⟨objects, more⟩ := List.forall_mem_cons.mp only
      rw [followAll, followAll, attempt_screened]
      · generalize exec.attempt _ = outcome
        obtain ⟨checked, after⟩ := outcome
        dsimp only [Outcome.screened]
        split
        · rfl
        · rw [induction others more]
          rfl
      · rw [unaware exec]
        refine .bindAsked (objects exec).blind fun site effect asked => ?_
        cases ((objects exec).each site).yields effect asked with
        | nothing reply => exact .pure rfl
        | update updates reply => exact .pure rfl

theorem screened_refuse (message : Message) :
    (exec.screened gone log).refuse message = (exec.refuse message).screened gone log :=
  attempt_screened (.recover message (screened_pushOperand _))

theorem callNular_screened (forgets : exec.world.scheduler.MayForget gone) :
    (exec.screened gone log).callNular name = (exec.callNular name).screened gone log := by
  rcases callNular_cases name with ⟨command, design, obeys, same⟩ | same
  · rw [same, same]
    have unaware : design.Unaware := obeys.unaware
    exact fulfil_screened forgets obeys.single (obeys.sanctioned exec) obeys.endsOnly (by simp)
      fun made plan => by
        subst plan
        exact unaware exec exec.handle.id _ _
  · rw [same, same]
    exact attempt_screened (.recover _ rfl)

theorem callUnary_screened {right : Value} (forgets : exec.world.scheduler.MayForget gone)
    (spared : ∀ id, Command.target? name right = some id → gone id = false) :
    (exec.screened gone log).callUnary name right =
      (exec.callUnary name right).screened gone log := by
  rcases callUnary_cases name right with
    ⟨command, design, named, _, obeys, same⟩ | ⟨message, _, same⟩
  · rw [same, same]
    have planned : ∀ made, design = .plan made →
        made (exec.screened gone log) = made exec := by
      rcases obeys.unaware with ⟨called, rfl⟩ | rfl | unaware
      · rintro _ ⟨⟩
        exact Plan.terminate_screened fun id aimed =>
          spared id ((if_pos (called ▸ named)).trans aimed)
      · rintro _ ⟨⟩
        unfold Plan.ofQuery
        dsimp only
        rw [Command.isDone_screened forgets]
      · rintro made rfl
        exact unaware exec exec.handle.id _ _
    exact fulfil_screened forgets obeys.single (obeys.sanctioned exec) (obeys.endsOnly named)
      (fun id target => spared id (by simpa using target)) planned
  · rw [same, same]
    exact screened_refuse message

theorem series_screened {made : Execution → Report (List Plan)}
    (same : made (exec.screened gone log) = made exec)
    (each : (made exec).Runs fun plans => ∀ plan ∈ plans,
      (∀ exec : Execution, plan (exec.screened gone log) = plan exec) ∧
        ∀ exec, (plan exec).Runs Effect.OnlyObjects) :
    (exec.screened gone log).fulfil (.series made) =
      (exec.fulfil (.series made)).screened gone log := by
  have told :
      made (exec.screened gone log) (exec.screened gone log).site = made exec exec.site := by
    rw [same]
    exact each.blind exec.site (log exec.world.logger)
  unfold fulfil
  dsimp only
  rw [told]
  cases result : (made exec exec.site).result with
  | error abort => rfl
  | ok plans =>
      have all := (each.each exec.site).yields plans result
      have followed : (exec.screened gone log).followAll plans =
          (exec.followAll plans).screened gone log :=
        followAll_screened (fun plan member => (all plan member).1)
          fun plan member => (all plan member).2
      dsimp only
      rw [followed]
      rfl

theorem moveUnits_screened (left right : Value) :
    (exec.screened gone log).fulfil (.moveUnits left right) =
      (exec.fulfil (.moveUnits left right)).screened gone log := by
  apply series_screened rfl
  refine .after (Check.subTypes_graded _ _ _ _ _) fun _ => .ite (fun _ => ?_) fun _ => ?_
  · refine .pure fun plan member => ?_
    obtain ⟨unit, _, rfl⟩ := List.mem_map.mp member
    exact ⟨fun _ => rfl, fun _ => Command.moveUnit_onlyObjects unit right⟩
  · exact .pure (by simp)

theorem callBinary_screened {left right : Value} (forgets : exec.world.scheduler.MayForget gone) :
    (exec.screened gone log).callBinary name left right =
      (exec.callBinary name left right).screened gone log := by
  rcases callBinary_cases name left right with
    ⟨command, design, _, _, obeys, same⟩ | ⟨message, _, same⟩
  · rw [same, same]
    rcases obeys.single with ⟨_, _, _, rfl⟩ | single
    · exact moveUnits_screened left right
    · have unaware : design.Unaware := obeys.unaware
      exact fulfil_screened forgets single (obeys.sanctioned exec) obeys.endsOnly (by simp)
        fun made plan => by
          subst plan
          exact unaware exec exec.handle.id _ _
  · rw [same, same]
    exact screened_refuse message

/-! ## Steps -/

theorem screened_report (message : Message) :
    ((exec.screened gone log).attempt fun exec => Report.recover message exec) =
      (exec.attempt fun exec => Report.recover message exec).screened gone log :=
  attempt_screened (.recover message rfl)

theorem dispatch_screened {op : Op} {frame : CallFrame} {outer : CallStack}
    (forgets : exec.world.scheduler.MayForget gone) (stack : exec.handle.stack = frame :: outer)
    (spared : ∀ id, frame.target? op = some id → gone id = false) :
    (exec.screened gone log).dispatch op = (exec.dispatch op).screened gone log := by
  have popped := popOperand_of_stack stack
  cases op with
  | push value => exact congrArg (Prod.mk (⟨.ok (), []⟩ : Checked Unit)) (screened_give _)
  | endStatement =>
      exact congrArg (Prod.mk (⟨.ok (), []⟩ : Checked Unit)) (screened_mapTop _)
  | getVariable name => exact attempt_screened (readVariable_forgets name)
  | assignTo name => exact attempt_screened (assignVariable_forgets name)
  | assignToLocal name => exact attempt_screened (assignLocal_forgets name)
  | makeArray count => exact attempt_screened (makeArray_forgets count)
  | callNular name => exact callNular_screened forgets
  | callUnary name =>
      simp only [dispatch, screened_popOperand, popped]
      cases operands : frame.operands with
      | nil =>
          have nobody : ∀ id, Command.target? name .nil = some id → gone id = false := by
            simp [Command.target?, Command.handleOf?]
          dsimp only [List.head?_nil]
          rw [screened_report, callUnary_screened forgets nobody]
          generalize exec.callUnary name .nil = called
          generalize exec.attempt _ = missing
          rfl
      | cons right rest =>
          apply callUnary_screened
          · exact forgets
          · intro id aimed
            apply spared id
            simp [CallFrame.target?, operands, aimed]
  | callBinary name =>
      simp only [dispatch, screened_popOperand, popped]
      cases operands : frame.operands with
      | nil => exact screened_report _
      | cons right rest =>
          let one := exec.withStack ({ frame with operands := rest } :: outer)
          have next : one.popOperand =
              (rest.head?, exec.withStack ({ frame with operands := rest.tail } :: outer)) := by
            rw [popOperand_of_stack rfl]
            rfl
          dsimp only [List.head?_cons, List.tail_cons]
          rw [screened_popOperand, next]
          cases rest with
          | nil => exact screened_report _
          | cons left rest =>
              apply callBinary_screened
              exact forgets

theorem screened_charge? :
    (exec.screened gone log).charge? = exec.charge?.map fun exec => exec.screened gone log := by
  have settings : (exec.screened gone log).world.settings = exec.world.settings := rfl
  unfold charge?
  rw [settings, screened_handle]
  split <;> rfl

theorem stepFrame_screened {frame : CallFrame} {outer : CallStack}
    (forgets : exec.world.scheduler.MayForget gone)
    (proceeds : exec.handle.terminateRequested = false)
    (stack : exec.handle.stack = frame :: outer)
    (spared : ∀ id, exec.target? = some id → gone id = false) :
    (exec.screened gone log).stepFrame frame = (exec.stepFrame frame).screened gone log := by
  have top : exec.handle.top? = some frame := by simp [Handle.top?, stack]
  unfold stepFrame
  rw [screened_charge?]
  split
  case isTrue =>
      exact congrArg (Prod.mk (⟨.ok (), []⟩ : Checked Unit)) (screened_complete frame)
  case isFalse unfinished =>
      have due : exec.Due frame := by
        refine ⟨proceeds, top, ?_⟩
        cases exhausted : frame.isExhausted <;> simp_all
      cases paid : exec.charge? with
      | none => rfl
      | some charged =>
          obtain rfl := charge?_eq_some charged paid
          dsimp only [Option.map_some]
          cases fetched : frame.fetch? with
          | none => exact attempt_screened (stepLoop_forgets frame)
          | some next =>
              obtain ⟨instruction, moved⟩ := next
              have placed : { (exec.charged.screened gone log).mapTop fun _ => moved with
                  location := instruction.location } =
                    (exec.placed instruction moved).screened gone log := by
                rw [screened_mapTop]
                rfl
              dsimp only
              rw [placed]
              apply dispatch_screened _ (placed_stack stack)
              · intro id aimed
                exact spared id ((target?_of_fetch due paid fetched).trans aimed)
              · rw [placed_world]
                exact forgets

/-- A step that ends no forgotten script is the same among fewer scripts. -/
theorem step_screened (forgets : exec.world.scheduler.MayForget gone)
    (spared : ∀ id, exec.target? = some id → gone id = false) :
    (exec.screened gone log).step = exec.step.screened gone log := by
  unfold step
  rw [screened_handle]
  split
  case isTrue => rfl
  case isFalse proceeds =>
      cases stack : exec.handle.stack with
      | nil => rfl
      | cons frame outer => exact stepFrame_screened forgets (by simpa using proceeds) stack spared

theorem screened_abandonStatement :
    (exec.screened gone log).abandonStatement = exec.abandonStatement.screened gone log := by
  have left : (exec.screened gone log).leaveLoops = exec.leaveLoops.screened gone log := rfl
  rw [abandonStatement, left, screened_mapTop, abandonStatement]

theorem settle_screened (forgets : exec.world.scheduler.MayForget gone)
    (spared : ∀ id, exec.target? = some id → gone id = false) :
    (exec.screened gone log).settle = (exec.settle.1, exec.settle.2.screened gone log) := by
  unfold settle
  rw [step_screened forgets spared]
  generalize exec.step = outcome
  obtain ⟨checked, after⟩ := outcome
  dsimp only [Outcome.screened]
  split
  · rfl
  · rw [screened_abandonStatement]
  · rfl

/-! ## With the log that there is -/

@[simp] theorem without_handle : (exec.without gone).handle = exec.handle := rfl

@[simp] theorem without_world : (exec.without gone).world = exec.world.without gone := rfl

theorem without_charge? :
    (exec.without gone).charge? = exec.charge?.map fun exec => exec.without gone := by
  have charges : (exec.screened gone id).charge? = _ := screened_charge?
  exact charges

theorem advance_without (forgets : exec.world.scheduler.MayForget gone)
    (spared : ∀ id, exec.target? = some id → gone id = false) :
    (exec.without gone).advance = (exec.advance.1, exec.advance.2.without gone) := by
  have settled : (exec.without gone).settle = (exec.settle.1, exec.settle.2.without gone) :=
    have settles : (exec.screened gone id).settle = _ := settle_screened forgets spared
    settles
  rw [advance, settled]
  rfl

end Execution

end SimScript

import SimScript.Proofs.Execution.Environment
import SimScript.Proofs.Execution.Severity
import SimScript.Proofs.Machine.Termination

/-!
# Where scripts suspend

A script suspends only where the settings allow it and all its frames are scheduled.
The commands ask the frame on top, which speaks for the others; a loop that waits was
asked when it was entered.  Code that runs at once is unscheduled from its first frame
on, so it never suspends and always comes to its end by itself.
-/

namespace SimScript

/-- A command that lets a script wait has this name. -/
def Command.IsSuspending (name : String) : Prop :=
  Text.sameName name "sleep" = true ∨ Text.sameName name "uiSleep" = true ∨
    Text.sameName name "waitUntil" = true

namespace Command

variable {exec : Execution} {name : String}

theorem checkSuspension_refuses (unable : exec.canSuspend = false) (site : Site) :
    (checkSuspension exec site).result = .error .statement := by
  unfold checkSuspension
  split
  · rfl
  case isFalse allowed =>
      have strict : exec.environment = .unscheduled := by
        have allows : exec.world.settings.allowSuspension = true := by simpa using allowed
        cases held : exec.environment with
        | unscheduled => rfl
        | scheduled => simp [Execution.canSuspend, allows, held] at unable
      rw [if_pos strict]
      rfl

theorem checkSuspension_allows (able : exec.canSuspend = true) :
    checkSuspension exec = pure () := by
  simp only [Execution.canSuspend, Bool.and_eq_true, decide_eq_true_eq] at able
  simp [checkSuspension, able.1, able.2]

theorem unariesOf_sleep
    (named : Text.sameName name "sleep" = true ∨ Text.sameName name "uiSleep" = true) :
    ∃ label, unariesOf name = [⟨label, .scalar, sleep⟩] := by
  unfold unariesOf
  rcases named with named | named
  · rw [named_sameName unaryTable named]
    exact ⟨"sleep", rfl⟩
  · rw [named_sameName unaryTable named]
    exact ⟨"uiSleep", rfl⟩

theorem unariesOf_waitUntil (named : Text.sameName name "waitUntil" = true) :
    unariesOf name = [⟨"waitUntil", .code, waitUntil⟩] := by
  rw [unariesOf, named_sameName unaryTable named]
  rfl

theorem IsSuspending.found (suspending : IsSuspending name) :
    ∃ label type body, unariesOf name = [⟨label, type, body⟩] ∧
      ∀ right, ∃ plan, (body right).Follows (.plan plan) ∧
        ∀ exec, ∃ ask, plan exec = checkSuspension exec >>= ask := by
  rcases or_assoc.mpr suspending with sleeps | waits
  · obtain ⟨label, only⟩ := unariesOf_sleep sleeps
    exact ⟨label, .scalar, sleep, only, fun right => ⟨_, sleep_follows right, fun _ => ⟨_, rfl⟩⟩⟩
  · exact ⟨"waitUntil", .code, waitUntil, unariesOf_waitUntil waits,
      fun right => ⟨_, waitUntil_follows right, fun _ => ⟨_, rfl⟩⟩⟩

end Command

namespace Execution

variable {exec after : Execution} {frame moved : CallFrame} {outer : CallStack} {name : String}
  {instruction : Instruction} {allowed : Bool} {root : Environment}

theorem attempt_result {work : Execution → Report Execution} {abort : Abort}
    (fails : (work exec exec.site).result = .error abort) :
    (exec.attempt work).1.result = .error abort := by
  unfold attempt
  simp only [fails]

theorem callUnary_refuses (suspending : Command.IsSuspending name)
    (unable : exec.canSuspend = false) (right : Value) :
    (exec.callUnary name right).1.result = .error .statement := by
  obtain ⟨label, type, body, only, asks⟩ := suspending.found
  unfold callUnary
  rw [only]
  dsimp only
  split
  case h_1 command found =>
      obtain rfl : command = ⟨label, type, body⟩ :=
        List.mem_singleton.mp (List.mem_of_find?_eq_some found)
      obtain ⟨plan, follows, planned⟩ := asks right
      obtain ⟨ask, checks⟩ := planned exec
      have refused := Command.checkSuspension_refuses unable exec.site
      rw [follows]
      apply attempt_result
      rw [follow, checks, bind_assoc, Report.bind_of_error refused]
  case h_2 => exact attempt_result rfl

theorem dispatch_refuses (stack : exec.handle.stack = frame :: outer)
    (suspending : Command.IsSuspending name) (unable : exec.canSuspend = false) :
    (exec.dispatch (.callUnary name)).1.result = .error .statement := by
  dsimp only [dispatch]
  rw [popOperand_of_stack stack]
  cases operands : frame.operands with
  | nil => exact callUnary_refuses suspending unable .nil
  | cons right rest =>
      have same : (exec.withStack ({ frame with operands := rest } :: outer)).canSuspend =
          exec.canSuspend := canSuspend_congr stack rfl rfl rfl
      exact callUnary_refuses suspending (same.trans unable) right

/-- Where a script may not wait, the step that asks for it reports one error and gives up the
statement, and the script goes on. -/
theorem CarriesOut.refused (carries : exec.CarriesOut (.callUnary name) moved outer)
    (suspending : Command.IsSuspending name) (unable : exec.canSuspend = false) :
    exec.advance.2.handle.state = exec.handle.state ∧
      exec.advance.1.countP (fun event => event.severity = .error) = 1 ∧
      exec.advance.1.countP (fun event => event.severity = .fatal) = 0 := by
  obtain ⟨instruction, placed, made⟩ := carries.step
  have still : (exec.placed instruction moved).canSuspend = false := by
    obtain ⟨_, frame, _, _, stack, fetched, _⟩ := carries
    obtain ⟨_, _, same⟩ := Option.map_eq_some_iff.mp fetched
    obtain ⟨_, rfl⟩ := Prod.mk.inj same
    rw [canSuspend_congr stack placed (by rw [placed_world]) rfl]
    exact unable
  have refused : exec.step.1.result = .error .statement := by
    rw [made]
    exact dispatch_refuses placed suspending still
  have computed : (exec.placed instruction moved).Computes exec.step.2 := by
    rw [made] at refused ⊢
    exact (dispatch_comes placed).failed _ refused
  have graded : Abort.demanded exec.step.1.events = [.statement] := by
    have demanded : Abort.demanded exec.step.1.events = Abort.given exec.step.1.result :=
      exec.step_proper.graded
    rw [demanded, refused, Abort.given]
  have kept : exec.step.2.abandonStatement.handle.state = exec.handle.state := by
    rw [abandonStatement_state, computed.state, placed_state]
  rw [advance_of_statement refused, Abort.countP_error, Abort.countP_fatal, graded]
  exact ⟨kept, rfl, rfl⟩

/-! ## Asking whether a script may wait -/

theorem dispatch_canSuspend (named : Text.sameName name "canSuspend" = true) :
    exec.dispatch (.callNular name) =
      (⟨.ok (), []⟩, exec.pushOperand (.boolean exec.canSuspend)) := by
  have found : Command.nular? name =
      some (Command.nular "canSuspend" fun exec => Command.reply (.boolean exec.canSuspend)) := by
    rw [Command.nular?, Command.named_sameName Command.nularTable named]
    rfl
  dsimp only [dispatch, callNular]
  rw [found]
  rfl

theorem dispatch_sleep {seconds : Float} {rest : List Value}
    (named : Text.sameName name "sleep" = true ∨ Text.sameName name "uiSleep" = true)
    (stack : exec.handle.stack = frame :: outer)
    (operands : frame.operands = .scalar seconds :: rest)
    (running : exec.handle.state = .running) (able : exec.canSuspend = true) :
    (exec.dispatch (.callUnary name)).2.handle.state = .suspended := by
  obtain ⟨label, only⟩ := Command.unariesOf_sleep named
  let popped := exec.withStack ({ frame with operands := rest } :: outer)
  have same : popped.canSuspend = exec.canSuspend := canSuspend_congr stack rfl rfl rfl
  have may : popped.canSuspend = true := same.trans able
  have called : exec.dispatch (.callUnary name) =
      popped.attempt (follow (Plan.sleep (.scalar seconds))) := by
    rw [dispatch_callUnary stack operands, callUnary, only]
    exact Command.sleep_follows _ popped
  have follows : follow (Plan.sleep (.scalar seconds)) popped =
      pure ((popped.pushOperand .nil).suspend
        (.at (popped.world.now + Scalar.larger seconds 0))) := by
    rw [follow, Plan.sleep, Command.checkSuspension_allows may]
    rfl
  have awake : (popped.pushOperand .nil).handle.state = .running := (mapTop_state _).trans running
  rw [called, attempt, follows]
  simp [Report.pure_apply, suspend, Handle.become, awake, HandleState.canBecome]

theorem dispatch_sleep_iff {seconds : Float} (inside : exec.handle.stack ≠ [])
    (running : exec.handle.state = .running)
    (named : Text.sameName name "sleep" = true ∨ Text.sameName name "uiSleep" = true) :
    ((exec.pushOperand (.scalar seconds)).dispatch (.callUnary name)).2.handle.state = .suspended ↔
      exec.canSuspend = true := by
  obtain ⟨frame, outer, stack⟩ := List.exists_cons_of_ne_nil inside
  let asking := exec.pushOperand (.scalar seconds)
  have pushed : asking.handle.stack = frame.push (.scalar seconds) :: outer :=
    pushOperand_stack stack
  have awake : asking.handle.state = .running := (mapTop_state _).trans running
  have same : asking.canSuspend = exec.canSuspend := pushOperand_canSuspend _ inside
  constructor
  · intro suspended
    by_contra unable
    have refused : (asking.dispatch (.callUnary name)).1.result = .error .statement :=
      dispatch_refuses pushed (or_assoc.mp (.inl named)) (same.trans (by simpa using unable))
    have computed := (dispatch_comes pushed).failed _ refused
    rw [computed.state, awake] at suspended
    simp at suspended
  · intro able
    exact dispatch_sleep named pushed rfl awake (same.trans able)

/-! ## Frames of a script that waits -/

namespace Inherits

/-- Where a script may wait, or the loop on top of it waits, all its frames are scheduled. -/
theorem confined (inherits : exec.Inherits allowed root)
    (may : exec.canSuspend = true ∨
      ∃ frame, exec.handle.top? = some frame ∧ frame.kind.waits = true) :
    allowed = true ∧ ∀ frame ∈ exec.handle.stack, frame.environment = .scheduled := by
  obtain ⟨settings, stack⟩ := inherits
  rcases may with able | ⟨frame, top, waits⟩
  · simp only [canSuspend, Bool.and_eq_true, decide_eq_true_eq] at able
    refine ⟨settings.symm.trans able.1, ?_⟩
    cases inside : exec.handle.stack with
    | nil => simp
    | cons frame outer =>
        rw [inside] at stack
        exact stack.allScheduled ((environment_eq inside).symm.trans able.2)
  · obtain ⟨outer, inside⟩ := List.head?_eq_some_iff.mp top
    rw [inside] at stack ⊢
    obtain ⟨allows, scheduled⟩ := stack.waits frame List.mem_cons_self waits
    exact ⟨allows, stack.allScheduled scheduled⟩

end Inherits

end Execution

/-- The frames of a handle inherit their environments, and where it waits all are scheduled. -/
structure Handle.Confined (settings : Settings) (handle : Handle) : Prop where
  inherits : handle.stack.Inherits settings.allowSuspension .scheduled
  waits : handle.state = .suspended →
    settings.allowSuspension = true ∧ ∀ frame ∈ handle.stack, frame.environment = .scheduled

theorem Handle.start_ne_suspended (handle : Handle) :
    (handle.become .running).state ≠ .suspended := by
  unfold become
  cases held : handle.state <;> simp [HandleState.canBecome, held]

namespace Situation

variable {permits : Store → Value → Prop} {situation : Situation} {exec : Execution}

theorem Reachable.confined (reached : Reachable permits situation) :
    ∀ handle ∈ situation.handles, handle.Confined situation.world.settings := by
  refine reached.everyHandle (motive := fun settings handle => handle.Confined settings) ?_ ?_
  · intro settings handle fresh
    obtain ⟨frame, stack, block⟩ := fresh.block
    constructor
    · rw [stack]
      exact (CallStack.Inherits.ofBlock block).unrooted
    · intro suspended
      rcases fresh.begins with begins | begins <;> simp [begins] at suspended
  · intro earlier handle later _ confined passed
    cases passed with
    | stays => exact confined
    | starts =>
        refine ⟨?_, fun suspended => absurd suspended (Handle.start_ne_suspended _)⟩
        rw [Handle.become_stack]
        exact confined.inherits
    | stops _ live =>
        refine ⟨.nil, fun suspended => ?_⟩
        have ended := Handle.stopped_isAbsorbed live
        simp [Handle.isAbsorbed, suspended, HandleState.isAbsorbed] at ended
    | @steps exec batch atWork running =>
        subst atWork
        have after : exec.advance.2.Inherits exec.world.settings.allowSuspension .scheduled :=
          Execution.Inherits.advance ⟨rfl, confined.inherits⟩
        refine ⟨after.stack, fun suspended => ?_⟩
        cases Execution.advance_rests running with
        | runs state => simp [state] at suspended
        | waits _ _ may => exact after.confined may
        | ends absorbed => simp [Handle.isAbsorbed, suspended, HandleState.isAbsorbed] at absorbed

/-- Code that runs at once stays unscheduled, and runs until it has come to its end. -/
structure RunsAtOnce (exec : Execution) : Prop where
  inherits : exec.Inherits exec.world.settings.allowSuspension .unscheduled
  state : exec.handle.state = .running ∨ exec.handle.isAbsorbed = true

theorem RunsAtOnce.advance (atOnce : RunsAtOnce exec) (running : exec.handle.state = .running)
    (layered : exec.handle.stack.Layered) : RunsAtOnce exec.advance.2 := by
  have inherits := atOnce.inherits.advance
  have same : exec.advance.2.world.settings.allowSuspension =
      exec.world.settings.allowSuspension := inherits.settings
  refine ⟨same ▸ inherits, ?_⟩
  cases Execution.advance_rests running with
  | runs state => exact .inl state
  | ends absorbed => exact .inr absorbed
  | waits _ _ may =>
      have scheduled := (inherits.confined may).2
      have strict := inherits.stack.rooted rfl
      -- A frame would be scheduled and unscheduled at once; and where there is none, it is over.
      refine .inr ((Execution.advance_turned running layered).ended ?_)
      apply List.eq_nil_iff_forall_not_mem.mpr
      intro frame member
      have both := (strict frame member).symm.trans (scheduled frame member)
      simp at both

theorem Reachable.runsAtOnce (reached : Reachable permits (.atWork exec none)) :
    RunsAtOnce exec := by
  refine reached.along
    (motive := fun situation => ∀ exec, situation = .atWork exec none → RunsAtOnce exec) ?_ ?_
    exec rfl
  · intro settings exec impossible
    cases impossible
  · intro earlier later reached atOnce next exec same
    cases next with
    | @execute world code _ =>
        cases same
        obtain ⟨frame, stack, block, strict⟩ : ∃ frame,
            (world.startAtOnce code).handle.stack = [frame] ∧ frame.kind = .block ∧
              frame.environment = .unscheduled := ⟨_, rfl, rfl, rfl⟩
        refine ⟨⟨rfl, ?_⟩, .inl rfl⟩
        rw [stack, ← strict]
        exact .ofBlock block
    | @advance exec batch running =>
        cases same
        have layered := reached.layered exec.handle List.mem_cons_self
          (Handle.live_of_running running)
        exact (atOnce exec rfl).advance running layered
    | tend | beginTurn | skip | take | keep | close | endTurn => cases same

end Situation

/-- Code that runs at once ends by itself: the handle that its run leaves is the one that the
scheduler keeps, and has finished or was terminated. -/
structure Performed.EndsByItself (run : Option (Array Event × Execution))
    (done : Performed ScriptOutcome) : Prop where
  yielded : ∃ exec, run = some (done.events, exec) ∧ exec.handle.isAbsorbed = true ∧
    done.world = { exec.world with scheduler := exec.world.scheduler.put exec.handle } ∧
    done.answer.state = exec.handle.state
  state : done.answer.state = .finished ∨ done.answer.state = .terminated

theorem HandleState.isAbsorbed_iff {state : HandleState} :
    state.isAbsorbed = true ↔ state = .finished ∨ state = .terminated := by
  cases state <;> simp [isAbsorbed]

theorem Situation.Reachable.endsByItself {permits : Store → Value → Prop} {world : World}
    {fuel : Nat} {code : CodeBlock} {done : Performed ScriptOutcome}
    (reached : Reachable permits (.idle world))
    (permitted : ∀ value ∈ code.constants, permits world.store value)
    (ran : world.execute fuel code = some done) :
    done.EndsByItself ((world.startAtOnce code).run fuel #[]) := by
  unfold World.execute at ran
  obtain ⟨⟨events, exec⟩, yielded, result⟩ := Option.bind_eq_some_iff.mp ran
  obtain ⟨after, stopped⟩ := (reached.execute permitted).run yielded
  have absorbed : exec.handle.isAbsorbed = true := after.runsAtOnce.state.resolve_left stopped
  simp only [absorbed, if_true] at result
  obtain rfl := Option.some.inj result
  exact ⟨⟨exec, yielded, absorbed, rfl, rfl⟩, HandleState.isAbsorbed_iff.mp absorbed⟩

/-- Whatever a host does.  A frame above an unscheduled one is unscheduled; a script that waits does
so where the settings allow it and all its frames are scheduled.  Where that is not so, a command
that would wait reports one error and the script goes on.  Asking whether a script may suspend tells
whether `sleep` would suspend it.  Code that runs at once comes to its end by itself, and does so
wherever there is a budget and fuel for it. -/
theorem scripts_suspend_only_where_scheduled (permits : Store → Value → Prop) :
    (∀ situation, Situation.Reachable permits situation → ∀ handle ∈ situation.handles,
      (handle.stack.Pairwise fun above below =>
        below.environment = .unscheduled → above.environment = .unscheduled) ∧
      (handle.state = .suspended → situation.world.settings.allowSuspension = true ∧
        ∀ frame ∈ handle.stack, frame.environment = .scheduled)) ∧
    (∀ exec batch name moved outer, Situation.Reachable permits (.atWork exec batch) →
      exec.handle.state = .running → exec.CarriesOut (.callUnary name) moved outer →
      Command.IsSuspending name →
      ¬(exec.world.settings.allowSuspension = true ∧
        ∀ frame ∈ exec.handle.stack, frame.environment = .scheduled) →
      exec.advance.2.handle.state = .running ∧
        exec.advance.1.countP (fun event => event.severity = .error) = 1 ∧
        exec.advance.1.countP (fun event => event.severity = .fatal) = 0) ∧
    (∀ (exec : Execution) asks sleeps seconds, exec.handle.state = .running →
      exec.handle.stack ≠ [] → Text.sameName asks "canSuspend" = true →
      Text.sameName sleeps "sleep" = true ∨ Text.sameName sleeps "uiSleep" = true →
      ∃ able, exec.dispatch (.callNular asks) =
          (⟨.ok (), []⟩, exec.pushOperand (.boolean able)) ∧
        (able = true ↔ ((exec.pushOperand (.scalar seconds)).dispatch
          (.callUnary sleeps)).2.handle.state = .suspended)) ∧
    (∀ world code fuel, Situation.Reachable permits (.idle world) →
      (∀ value ∈ code.constants, permits world.store value) →
      (∀ done, world.execute fuel code = some done →
        done.EndsByItself ((world.startAtOnce code).run fuel #[])) ∧
      ∀ budget, world.settings.instructionBudget = some budget → 2 * budget + 2 ≤ fuel →
        (world.execute fuel code).isSome = true) := by
  refine ⟨?_, ?_, ?_, ?_⟩
  · intro situation reached handle member
    have confined := reached.confined handle member
    exact ⟨confined.inherits.order, confined.waits⟩
  · intro exec batch name moved outer reached running carries suspending otherwise
    have inherits : exec.Inherits exec.world.settings.allowSuspension .scheduled :=
      ⟨rfl, (reached.confined exec.handle List.mem_cons_self).inherits⟩
    have unable : exec.canSuspend = false := by
      by_contra able
      exact otherwise (inherits.confined (.inl (by simpa using able)))
    rw [← running]
    exact carries.refused suspending unable
  · intro exec asks sleeps seconds running inside asking sleeping
    refine ⟨exec.canSuspend, Execution.dispatch_canSuspend asking, ?_⟩
    exact (Execution.dispatch_sleep_iff inside running sleeping).symm
  · intro world code fuel reached permitted
    refine ⟨fun done ran => reached.endsByItself permitted ran, ?_⟩
    intro budget limit enough
    exact reached.execute_isSome permitted limit enough

/-- The same code twice: run at once, `sleep` is an error; in a script of the scheduler it waits. -/
theorem sleep_waits_in_a_scheduled_script_only :
    let code : CodeBlock :=
      [⟨.push (.scalar 1), Location.host⟩, ⟨.callUnary "sleep", Location.host⟩]
    let world := World.ofSettings { instructionBudget := some 5 }
    let strict := (world.startAtOnce code).advance.2
    let queued := (world.spawn code [] Location.host).2
    let turn := { queued with scheduler := queued.scheduler.beginTurn.2 }
    let spawned := (world.newHandle code [] .scheduled Location.host).1
    let waiting := (turn.startKept spawned).advance.2.advance.2
    strict.advance.2.handle.state = .running ∧
      strict.advance.1.countP (fun event => event.severity = .error) = 1 ∧
      (∃ able, strict.dispatch (.callNular "canSuspend") =
          (⟨.ok (), []⟩, strict.pushOperand (.boolean able)) ∧
        (able = true ↔ ((strict.pushOperand (.scalar 1)).dispatch
          (.callUnary "sleep")).2.handle.state = .suspended)) ∧
      waiting.handle.state = .suspended ∧
      (∀ frame ∈ waiting.handle.stack, frame.environment = .scheduled) ∧
      ∃ done, world.execute 12 code = some done ∧
        (done.answer.state = .finished ∨ done.answer.state = .terminated) := by
  intro code world strict queued turn spawned waiting
  obtain ⟨confined, refused, answers, ends⟩ :=
    scripts_suspend_only_where_scheduled fun _ _ => True
  have fresh : Situation.Reachable (fun _ _ => True) (.idle world) := .fresh _
  have atOnce : Situation.Reachable (fun _ _ => True) (.atWork strict none) :=
    (fresh.execute fun _ _ => trivial).advance rfl
  have inTurn : Situation.Reachable (fun _ _ => True) (.atWork waiting (some [])) := by
    have tended : Situation.Reachable (fun _ _ => True) (.idle queued) :=
      fresh.tend (.spawn (fun _ _ => trivial) fun _ _ => trivial)
    have begun : Situation.Reachable (fun _ _ => True) (.turn [spawned.id] turn) := tended.beginTurn
    have found : turn.scheduler.get? spawned.id = some spawned := rfl
    exact ((begun.take found).advance rfl).advance rfl
  obtain ⟨frame, stack, moved, fetched⟩ : ∃ frame, strict.handle.stack = [frame] ∧
      ∃ moved, frame.fetch? = some (⟨.callUnary "sleep", Location.host⟩, moved) :=
    ⟨_, rfl, _, rfl⟩
  have carries : strict.CarriesOut (.callUnary "sleep") moved [] := by
    have unfinished := CallFrame.unfinished_of_fetch fetched
    have due : strict.Due frame := ⟨rfl, by rw [Handle.top?, stack]; rfl, .inl unfinished⟩
    exact ⟨rfl, frame, _, due, stack, fetched, rfl⟩
  have otherwise : ¬(strict.world.settings.allowSuspension = true ∧
      ∀ frame ∈ strict.handle.stack, frame.environment = .scheduled) := by
    decide +kernel
  obtain ⟨goesOn, reported, _⟩ := refused strict none "sleep" moved [] atOnce rfl carries
    (.inl (Text.sameName_self _)) otherwise
  have asked := answers strict "canSuspend" "sleep" 1 rfl (by decide +kernel)
    (Text.sameName_self _) (.inl (Text.sameName_self _))
  have suspended : waiting.handle.state = .suspended := by decide +kernel
  have scheduled := (confined _ inTurn waiting.handle List.mem_cons_self).2 suspended
  obtain ⟨byItself, enough⟩ := ends world code 12 fresh fun _ _ => trivial
  obtain ⟨done, ran⟩ := Option.isSome_iff_exists.mp (enough 5 rfl (by omega))
  exact ⟨goesOn, reported, asked, suspended, scheduled.2, done, ran, (byItself done ran).state⟩

end SimScript

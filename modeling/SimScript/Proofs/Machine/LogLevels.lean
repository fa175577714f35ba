import SimScript.Proofs.Diagnostics.Logging
import SimScript.Proofs.Execution.Forgetting
import SimScript.Proofs.Machine.Reachable

/-!
# Log levels decide nothing but the log

Two machines that differ in the enabled severities only give a host the same answers
and end in the same world, whatever the host asks for; and the lines that one of them
keeps are those of a machine that keeps everything, less the severities that are
disabled.

All that finds fault has the log at hand.  None of the checks, commands, loops and
instructions looks at it, so a step under another log is the same step; from there it
is one induction for each way in which a machine repeats its steps.
-/

namespace SimScript

def World.withLogger (world : World) (logger : Logger) : World :=
  { world with logger }

@[simp] theorem World.withLogger_scheduler (world : World) (logger : Logger) :
    (world.withLogger logger).scheduler = world.scheduler := rfl

def Execution.withLogger (exec : Execution) (logger : Logger) : Execution :=
  { exec with world := exec.world.withLogger logger }

theorem Logger.emitAll_append (logger : Logger) (first second : Array Event) :
    logger.emitAll (first ++ second) = (logger.emitAll first).emitAll second :=
  Array.foldl_append

/-! ## Steps -/

theorem World.screened_nobody (world : World) (logger : Logger) :
    world.screened (fun _ => false) (fun _ => logger) = world.withLogger logger := by
  have everybody : world.scheduler.handles.filter (fun _ => true) = world.scheduler.handles :=
    List.filter_eq_self.mpr fun _ _ => rfl
  exact congrArg (fun handles =>
    { world with scheduler := { world.scheduler with handles }, logger }) everybody

namespace Execution

theorem screened_nobody (exec : Execution) (logger : Logger) :
    exec.screened (fun _ => false) (fun _ => logger) = exec.withLogger logger :=
  congrArg (fun world => { exec with world }) (exec.world.screened_nobody logger)

/-- A step comes to the same under another log, which takes the same events. -/
theorem advance_withLogger (exec : Execution) (logger : Logger) :
    (exec.withLogger logger).advance =
      (exec.advance.1, exec.advance.2.withLogger (logger.emitAll exec.advance.1.toArray)) := by
  have nobody : exec.world.scheduler.MayForget fun _ => false :=
    ⟨by simp, by simp⟩
  have settled : (exec.withLogger logger).settle =
      (exec.settle.1, exec.settle.2.withLogger logger) := by
    rw [← screened_nobody, settle_screened nobody (by simp), screened_nobody]
  rw [advance, settled]
  rfl

theorem run_withLogger (fuel : Nat) (exec : Execution) (before : Array Event) :
    ∃ done : Option (Array Event × Execution), ∀ logger,
      (exec.withLogger logger).run fuel before = done.map fun (events, after) =>
        (before ++ events, after.withLogger (logger.emitAll events)) := by
  induction fuel generalizing exec before with
  | zero => exact ⟨none, fun _ => rfl⟩
  | succ fuel induction =>
      by_cases running : exec.handle.state = .running
      · obtain ⟨done, same⟩ := induction exec.advance.2 (before ++ exec.advance.1)
        refine ⟨done.map fun (events, after) => (exec.advance.1.toArray ++ events, after),
          fun logger => ?_⟩
        have still : (exec.withLogger logger).handle.state = .running := running
        rw [run, if_pos still, advance_withLogger]
        dsimp only
        rw [same]
        cases done with
        | none => rfl
        | some done =>
            have appended : before ++ exec.advance.1 = before ++ exec.advance.1.toArray :=
              Array.toList_inj.mp (by simp)
            simp [Logger.emitAll_append, appended, Array.append_assoc]
      · refine ⟨some (#[], exec), fun logger => ?_⟩
        have rests : ¬(exec.withLogger logger).handle.state = .running := running
        rw [run, if_neg rests]
        simp [Logger.emitAll]

end Execution

/-! ## Turns -/

/-- The same after some events, and with a log that has taken those that came since. -/
def Performed.after {α : Type} (done : Performed α) (before : Array Event) (logger : Logger) :
    Performed α :=
  ⟨done.answer, before ++ done.events, done.world.withLogger (logger.emitAll done.events)⟩

namespace World

variable {α : Type}

/-- Work on a world that comes to the same under every log, which takes the events. -/
def Blind (before : Array Event) (work : World → Option (Performed α)) : Prop :=
  ∀ world : World, ∃ done : Option (Performed α), ∀ logger,
    work (world.withLogger logger) = done.map fun done => done.after before logger

theorem runHandle_withLogger (fuel : Nat) (before : Array Event) (handle : Handle)
    (world : World) :
    ∃ done : Option (Array Event × Execution), ∀ logger,
      runHandle fuel before handle (world.withLogger logger) = done.map fun (events, exec) =>
        (before ++ events, exec.withLogger (logger.emitAll events)) := by
  let taken := { world with scheduler := world.scheduler.remove handle.id }
  let begun := { handle with wake := none }.become .running
  have ran := Execution.run_withLogger fuel (Execution.resume taken begun) before
  unfold runHandle
  exact ran

theorem runBatch_blind (fuel : Nat) (batch : List HandleId) (before : Array Event)
    (report : TurnReport) : Blind before (runBatch fuel batch before report) := by
  induction batch generalizing before report with
  | nil =>
      refine fun world => ⟨some ⟨report, #[], world⟩, fun logger => ?_⟩
      simp [runBatch, Performed.after, Logger.emitAll]
  | cons id rest induction =>
      intro world
      cases found : world.scheduler.get? id with
      | none =>
          obtain ⟨done, same⟩ := induction before report world
          refine ⟨done, fun logger => ?_⟩
          simp only [runBatch, withLogger_scheduler, found]
          exact same logger
      | some handle =>
          obtain ⟨ran, same⟩ := runHandle_withLogger fuel before handle world
          cases ran with
          | none =>
              refine ⟨none, fun logger => ?_⟩
              simp only [runBatch, withLogger_scheduler, found, same, Option.map_none]
          | some ran =>
              obtain ⟨events, exec⟩ := ran
              let counted := report.count exec.handle.state
                (exec.handle.executed - handle.executed)
              obtain ⟨done, later⟩ := induction (before ++ events) counted
                (keep exec.handle exec.world)
              refine ⟨done.map fun done => { done with events := events ++ done.events },
                fun logger => ?_⟩
              simp only [runBatch, withLogger_scheduler, found, same, Option.map_some]
              have rest := later (logger.emitAll events)
              refine rest.trans ?_
              cases done with
              | none => rfl
              | some done => simp [Performed.after, Logger.emitAll_append]

theorem runTurn_blind (fuel : Nat) : Blind #[] (runTurn fuel) := by
  intro world
  let begun := world.scheduler.beginTurn
  have ran := runBatch_blind fuel begun.1 #[] { turn := begun.2.turns }
    { world with scheduler := begun.2 }
  unfold runTurn
  exact ran

theorem tick_blind (fuel : Nat) (seconds : Float) :
    Blind #[] fun world => (world.advance seconds).runTurn fuel :=
  fun world => runTurn_blind fuel (world.advance seconds)

theorem runUntilIdle_blind (fuel turns : Nat) : Blind #[] (runUntilIdle fuel turns) := by
  induction turns with
  | zero => exact fun world => ⟨some ⟨0, #[], world⟩, fun logger => rfl⟩
  | succ turns induction =>
      intro world
      by_cases idle : world.scheduler.isIdle = true
      · refine ⟨some ⟨0, #[], world⟩, fun logger => ?_⟩
        simp only [runUntilIdle, withLogger_scheduler, idle, if_true]
        rfl
      obtain ⟨turn, same⟩ := runTurn_blind fuel world
      cases turn with
      | none =>
          refine ⟨none, fun logger => ?_⟩
          simp [runUntilIdle, withLogger_scheduler, idle, same]
      | some turn =>
          -- However the turn ends, what comes after it goes on with the log that it leaves.
          have goesOn : ∀ next : World, ∃ done : Option (Performed Nat), ∀ logger,
              ((next.withLogger (logger.emitAll turn.events)).runUntilIdle fuel turns).bind
                (fun rest => some ⟨rest.answer + 1, turn.events ++ rest.events, rest.world⟩) =
              done.map fun done => done.after #[] logger := by
            intro next
            obtain ⟨rest, later⟩ := induction next
            refine ⟨rest.map fun rest =>
              ⟨rest.answer + 1, turn.events ++ rest.events, rest.world⟩, fun logger => ?_⟩
            rw [later]
            cases rest with
            | none => rfl
            | some rest => simp [Performed.after, Logger.emitAll_append]
          cases ran : turn.answer.ran with
          | succ others =>
              obtain ⟨done, later⟩ := goesOn turn.world
              refine ⟨done, fun logger => (Eq.trans ?_ (later logger))⟩
              simp [runUntilIdle, withLogger_scheduler, idle, same, Performed.after, ran]
          | zero =>
              cases wakes : turn.world.scheduler.nextWake? with
              | none =>
                  refine ⟨some ⟨1, turn.events, turn.world⟩, fun logger => ?_⟩
                  simp [runUntilIdle, withLogger_scheduler, idle, same, Performed.after, ran, wakes]
              | some wake =>
                  obtain ⟨done, later⟩ := goesOn (turn.world.advance (wake - turn.world.now))
                  refine ⟨done, fun logger => (Eq.trans ?_ (later logger))⟩
                  simp [runUntilIdle, withLogger_scheduler, idle, same, Performed.after, ran, wakes]
                  rfl

/-- The answer to running code at once, which ends here if it has not come to its end. -/
def concluded (yielded : Execution) : ScriptOutcome × World :=
  let ended := if yielded.handle.isAbsorbed then yielded else yielded.terminate
  ({ id := ended.handle.id
     state := ended.handle.state
     value := ended.handle.result
     executed := ended.handle.executed },
    { ended.world with scheduler := ended.world.scheduler.put ended.handle })

theorem concluded_withLogger (yielded : Execution) (logger : Logger) :
    concluded (yielded.withLogger logger) =
      ((concluded yielded).1, (concluded yielded).2.withLogger logger) := by
  have handle : (yielded.withLogger logger).handle = yielded.handle := rfl
  unfold concluded
  rw [handle]
  split <;> rfl

theorem execute_blind (fuel : Nat) (code : CodeBlock) : Blind #[] (execute fuel code) := by
  intro world
  let new := world.newHandle code [] .unscheduled Location.host
  obtain ⟨done, same⟩ :=
    Execution.run_withLogger fuel (Execution.resume new.2 (new.1.become .running)) #[]
  refine ⟨done.map fun (events, yielded) =>
    ⟨(concluded yielded).1, events, (concluded yielded).2⟩, fun logger => ?_⟩
  have ran : execute fuel code (world.withLogger logger) =
      (((Execution.resume new.2 (new.1.become .running)).withLogger logger).run fuel #[]).map
        fun (events, yielded) => ⟨(concluded yielded).1, events, (concluded yielded).2⟩ := by
    unfold execute
    exact (Option.map_eq_bind ..).symm
  rw [ran, same]
  cases done with
  | none => rfl
  | some done => simp [Performed.after, concluded_withLogger]

end World

/-! ## Operations of the host -/

/-- What an operation came to, apart from the log that its lines are offered to. -/
structure Told (α : Type) where
  answer : α
  lines : List Record
  world : World

def Told.to {α : Type} (logger : Logger) (told : Told α) : α × Machine :=
  (told.answer, ⟨told.world.withLogger (logger.offer told.lines)⟩)

namespace Machine

variable {α β : Type}

/-- Work that offers lines to the log and never looks at it. -/
def Blind (work : Machine → Option (α × Machine)) : Prop :=
  ∀ world : World, ∃ told : Option (Told α), ∀ logger,
    work ⟨world.withLogger logger⟩ = told.map (Told.to logger)

namespace Blind

/-- Work that offers nothing, and whose answer and update have nothing to do with the log. -/
theorem quiet {work : Machine → Option (α × Machine)} (answer : World → α)
    (update : World → World)
    (same : ∀ world logger, work ⟨world.withLogger logger⟩ =
      some (answer world, ⟨(update world).withLogger logger⟩)) : Blind work :=
  fun world => ⟨some ⟨answer world, [], update world⟩, same world⟩

theorem performed {work : World → Option (Performed α)} (blind : World.Blind #[] work) :
    Blind fun machine => (work machine.world).map ofPerformed := by
  intro world
  obtain ⟨done, same⟩ := blind world
  refine ⟨done.map fun done => ⟨done.answer, done.events.toList.map Event.line, done.world⟩,
    fun logger => ?_⟩
  dsimp only
  rw [same logger]
  cases done with
  | none => rfl
  | some done => simp [Performed.after, ofPerformed, Told.to, Logger.emitAll_eq_offer]

theorem map {work : Machine → Option (α × Machine)} (blind : Blind work) (answer : α → β) :
    Blind fun machine => (work machine).map (Prod.map answer id) := by
  intro world
  obtain ⟨told, same⟩ := blind world
  refine ⟨told.map fun told => ⟨answer told.answer, told.lines, told.world⟩, fun logger => ?_⟩
  dsimp only
  rw [same logger]
  cases told <;> rfl

theorem bind {first : Machine → Option (α × Machine)}
    {second : α → Machine → Option (β × Machine)} (blind : Blind first)
    (later : ∀ answer, Blind (second answer)) :
    Blind fun machine => (first machine).bind fun (answer, after) => second answer after := by
  intro world
  obtain ⟨told, same⟩ := blind world
  cases told with
  | none => exact ⟨none, fun logger => by simp [same logger]⟩
  | some told =>
      obtain ⟨last, sameLater⟩ := later told.answer told.world
      refine ⟨last.map fun last => ⟨last.answer, told.lines ++ last.lines, last.world⟩,
        fun logger => ?_⟩
      dsimp only
      rw [same logger]
      simp only [Option.map_some, Option.bind_some, Told.to, sameLater]
      cases last with
      | none => rfl
      | some last => simp [Told.to, Logger.offer_append]

end Blind

/-! ### Reports to the host -/

theorem report_withLogger {work : Report α} (blind : work.Blind) (world : World)
    (logger : Logger) :
    report ⟨world.withLogger logger⟩ work = ((work (site ⟨world⟩)).result,
      ⟨world.withLogger (logger.offer ((work (site ⟨world⟩)).events.map Event.line))⟩) := by
  have same : work (site ⟨world.withLogger logger⟩) = work (site ⟨world⟩) :=
    blind (site ⟨world⟩) logger
  simp only [report, same, Logger.emitAll_eq_offer]
  rfl

def notices (state : HandleState) : List Record :=
  state.endNotice?.toList.map fun notice : Fault => Event.line ⟨notice, Location.host⟩

theorem inspect_withLogger (world : World) (logger : Logger) (id : HandleId) :
    inspect ⟨world.withLogger logger⟩ id =
      match world.stateOf? id with
      | none => .error (.unknownHandle id)
      | some state => .ok (state, ⟨world.withLogger (logger.offer (notices state))⟩) := by
  have found : (world.withLogger logger).stateOf? id = world.stateOf? id := rfl
  unfold inspect
  rw [found]
  cases world.stateOf? id with
  | none => rfl
  | some state =>
      cases notice : state.endNotice? with
      | none => simp [notices, notice, Logger.offer]
      | some told =>
          have blind : (Report.note told).Blind := fun _ _ => rfl
          simp only [report_withLogger blind, notices, notice]
          rfl

theorem Blind.inspected (id : HandleId) (answer : Except MachineError α → Answer)
    (next : HandleState → World → α × World)
    (same : ∀ state world logger, next state (world.withLogger logger) =
      ((next state world).1, (next state world).2.withLogger logger)) :
    Blind fun machine => some (machine.orRefused answer (do
      let (state, inspected) ← machine.inspect id
      let (result, after) := next state inspected.world
      return (result, ⟨after⟩))) := by
  intro world
  cases found : world.stateOf? id with
  | none =>
      refine ⟨some ⟨answer (.error (.unknownHandle id)), [], world⟩, fun logger => ?_⟩
      simp [inspect_withLogger, found, orRefused, Told.to, Logger.offer, Bind.bind, Except.bind]
  | some state =>
      refine ⟨some ⟨answer (.ok (next state world).1), notices state, (next state world).2⟩,
        fun logger => ?_⟩
      simp [inspect_withLogger, found, same, orRefused, Told.to, Bind.bind, Except.bind, Pure.pure,
        Except.pure]

theorem loadExtension_blind (name : String) :
    Blind fun machine => some (machine.loadExtension name) := by
  intro world
  have settles := Extension.Registry.load_settles world.extensions name
  obtain ⟨outcome, events, extensions, run, -⟩ := settles.each (site ⟨world⟩)
  refine ⟨some ⟨outcome.toOption.getD false, events.map Event.line, { world with extensions }⟩,
    fun logger => ?_⟩
  have same : (Extension.Registry.load name).run (site ⟨world.withLogger logger⟩)
      (world.withLogger logger).extensions = (⟨.ok outcome, events⟩, extensions) :=
    (settles.blind (site ⟨world⟩) logger).trans run
  dsimp only [loadExtension]
  rw [same]
  cases outcome with
  | error what => exact what.elim
  | ok available =>
      simp only [Logger.emitAll_eq_offer]
      rfl

theorem connect_blind (target : String) :
    Blind fun machine => some (machine.connect target) := by
  intro world
  rcases connected : Network.SessionTable.connect world.settings.networkingEnabled target
    (site ⟨world⟩) world.network with ⟨⟨result, events⟩, network⟩
  refine ⟨some ⟨result.toOption.getD none, events.map Event.line, { world with network }⟩,
    fun logger => ?_⟩
  have same : Network.SessionTable.connect (world.withLogger logger).settings.networkingEnabled
      target (site ⟨world.withLogger logger⟩) (world.withLogger logger).network =
        (⟨result, events⟩, network) :=
    (world.network.connect_blind _ target (site ⟨world⟩) logger).trans connected
  dsimp only [connect]
  rw [same]
  simp only [Logger.emitAll_eq_offer]
  cases result <;> rfl

/-- No operation looks at the log. -/
theorem serve_blind (fuel : Nat) (operation : Operation) :
    Blind fun machine => machine.serve fuel operation := by
  cases operation with
  | execute code => exact (Blind.performed (World.execute_blind fuel code)).map Answer.outcome
  | spawn code bindings =>
      exact .quiet (fun world => Answer.count (world.spawn code bindings Location.host).1)
        (fun world => (world.spawn code bindings Location.host).2) fun _ _ => rfl
  | runTurn => exact (Blind.performed (World.runTurn_blind fuel)).map Answer.report
  | tick seconds => exact (Blind.performed (World.tick_blind fuel seconds)).map Answer.report
  | runUntilIdle turns =>
      exact (Blind.performed (World.runUntilIdle_blind fuel turns)).map Answer.count
  | advance seconds => exact .quiet (fun _ => Answer.done) (World.advance seconds) fun _ _ => rfl
  | terminate id =>
      refine .inspected id Answer.state (fun state world =>
        (((world.terminate id).stateOf? id).getD state, world.terminate id)) ?_
      intro state world logger
      have ends : (world.withLogger logger).terminate id =
          (world.terminate id).withLogger logger := world.terminate_logger id logger
      rw [ends]
      rfl
  | scriptDone id =>
      exact .inspected id Answer.ended (fun state world => (state.isAbsorbed, world))
        fun _ _ _ => rfl
  | reap =>
      exact .quiet (fun world => Answer.count world.scheduler.reap.1)
        (fun world => { world with scheduler := world.scheduler.reap.2 }) fun _ _ => rfl
  | handle id =>
      exact .quiet (fun world => Answer.handle (world.scheduler.get? id)) (fun world => world)
        fun _ _ => rfl
  | setGlobal name value =>
      refine .quiet (fun _ => Answer.stored
        (if isPrivate name then .error (.privateGlobal name) else .ok ()))
        (fun world => if isPrivate name then world else
          { world with scopes := world.scopes.setGlobal name value }) fun world logger => ?_
      simp only [serve, setGlobal]
      split <;> rfl
  | global name =>
      exact .quiet (fun world => Answer.value (world.scopes.global.get? name)) (fun world => world)
        fun _ _ => rfl
  | newArray items =>
      exact .quiet (fun world => Answer.value (some (world.store.newArray items.toArray).1))
        (fun world => { world with store := (world.store.newArray items.toArray).2 }) fun _ _ => rfl
  | newBlock code =>
      exact .quiet (fun world => Answer.value (some (.code (world.store.newBlock code).1)))
        (fun world => { world with store := (world.store.newBlock code).2 }) fun _ _ => rfl
  | createObject kind className =>
      exact .quiet (fun world => Answer.object (world.store.objects.next kind)) (fun world =>
        { world with store := world.store.withObjects fun table =>
            table.create kind { className } }) fun _ _ => rfl
  | updateObject ref update =>
      exact .quiet (fun _ => Answer.done) (fun world =>
        { world with store := world.store.withObjects fun table => table.update ref update })
        fun _ _ => rfl
  | destroyObject ref =>
      exact .quiet (fun _ => Answer.done) (fun world =>
        { world with store := world.store.withObjects fun table => table.destroy ref })
        fun _ _ => rfl
  | setPlayer ref =>
      exact .quiet (fun _ => Answer.done) (fun world =>
        { world with store := world.store.withObjects fun table => { table with player := ref } })
        fun _ _ => rfl
  | setConfigs configs =>
      exact .quiet (fun _ => Answer.done) (fun world => { world with configs }) fun _ _ => rfl
  | lookupConfig path strength =>
      intro world
      let lookup := world.configs.lookupChecked path strength
      refine ⟨some ⟨.entry (lookup (site ⟨world⟩)).result,
        (lookup (site ⟨world⟩)).events.map Event.line, world⟩, fun logger => ?_⟩
      have told := report_withLogger (world.configs.lookupChecked_graded path strength).blind world
        logger
      exact congrArg (fun told => some (Prod.map Answer.entry id told)) told
  | setLoader loader =>
      exact .quiet (fun _ => Answer.done) (fun world =>
        { world with extensions := world.extensions.setLoader loader }) fun _ _ => rfl
  | loadExtension name => exact (loadExtension_blind name).map Answer.flag
  | setConnector connector =>
      exact .quiet (fun _ => Answer.done) (fun world =>
        { world with network := { world.network with connector := some connector } })
        fun _ _ => rfl
  | connect target => exact (connect_blind target).map Answer.session
  | setState id state =>
      exact .quiet (fun world => Answer.flag (world.network.setState id state).1) (fun world =>
        { world with network := (world.network.setState id state).2 }) fun _ _ => rfl
  | disconnect id =>
      exact .quiet (fun world => Answer.flag (world.network.disconnect id).1) (fun world =>
        { world with network := (world.network.disconnect id).2 }) fun _ _ => rfl
  | log severity text =>
      exact fun world => ⟨some ⟨Answer.done, [⟨severity, text⟩], world⟩, fun _ => rfl⟩

theorem serveAll_blind (fuel : Nat) (operations : List Operation) :
    Blind fun machine => machine.serveAll fuel operations := by
  induction operations with
  | nil => exact fun world => ⟨some ⟨[], [], world⟩, fun _ => rfl⟩
  | cons operation rest induction =>
      exact (serve_blind fuel operation).bind fun answer => induction.map (answer :: ·)

/-- Two machines that differ in the enabled severities only give the same answers and end in the
same world but for the log, whatever the host asks for.  The lines that are kept beyond those kept
before are the lines that a machine with all severities enabled would keep, less the disabled
severities. -/
theorem log_levels_only_filter_the_log (fuel : Nat) (operations : List Operation)
    (world : World) (first second : LogLevels) :
    let under (levels : LogLevels) :=
      serveAll fuel ⟨world.withLogger { world.logger with levels }⟩ operations
    (∀ logger, (under first).map (fun (answers, machine) =>
        (answers, machine.world.withLogger logger)) =
      (under second).map fun (answers, machine) => (answers, machine.world.withLogger logger)) ∧
    (under first).map (fun (_, machine) => machine.world.logger.records.toList) =
      (under .everything).map fun (_, machine) =>
        world.logger.records.toList ++
          (machine.world.logger.records.toList.drop world.logger.records.size).filter
            fun line => first.get line.severity := by
  intro under
  obtain ⟨told, same⟩ := serveAll_blind fuel operations world
  have result (levels : LogLevels) :
      under levels = told.map (Told.to { world.logger with levels }) := same _
  simp only [result]
  cases told with
  | none => simp
  | some told =>
      simp [Told.to, World.withLogger, Logger.offer_records, LogLevels.everything]

end Machine

end SimScript

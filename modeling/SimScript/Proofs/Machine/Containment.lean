import SimScript.Proofs.Machine.Absorption
import SimScript.Proofs.Machine.Turns

/-!
# A fatal fault stays with its script

A step that gives up its script has changed nothing before.  Dealing with it reports the
frames of the script, keeps that report as its trace, and closes the scopes of those
frames, which no other script shares; so all others find everything as it was, and those
that are still to run in the turn do.
-/

namespace SimScript

/-! ## The trace -/

def CallFrame.line (frame : CallFrame) (depth : Nat) (location : Location) (scopes : Scopes) :
    TraceEntry :=
  { depth
    kind := frame.kind.label
    scopeName := scopes.name? frame.scope
    location := location.render }

namespace CallStack

variable {scopes : Scopes}

theorem length_trace (stack : CallStack) : (stack.trace scopes).length = stack.length := by
  induction stack with
  | nil => rfl
  | cons frame outer induction => simp only [trace, List.length_cons, induction]

/-- A trace has a line for each frame, with the depth counted from the outermost. -/
theorem getElem?_trace {stack : CallStack} {index : Nat} {frame : CallFrame}
    (found : stack[index]? = some frame) :
    (stack.trace scopes)[index]? =
      some (frame.line (stack.length - 1 - index) frame.location scopes) := by
  induction stack generalizing index with
  | nil => simp at found
  | cons inner outer induction =>
      cases index with
      | zero =>
          obtain rfl : inner = frame := by simpa using found
          rfl
      | succ index =>
          have below : outer[index]? = some frame := by simpa using found
          have inside := (List.getElem?_eq_some_iff.mp below).1
          have depth : (inner :: outer).length - 1 - (index + 1) = outer.length - 1 - index := by
            rw [List.length_cons]
            omega
          rw [depth]
          exact induction below

end CallStack

namespace Execution

variable {exec after : Execution} {index : Nat} {frame : CallFrame}

/-- Where the frames stand when a step stops: the one on top at the instruction that the step has
dispatched, if it has dispatched one, and all others where they stood before. -/
def standsAt (exec : Execution) (index : Nat) (frame : CallFrame) : Location :=
  match index, exec.charge?, frame.fetch? with
  | 0, some _, some (instruction, _) => instruction.location
  | _, _, _ => frame.location

theorem StopsIn.chain (stops : exec.StopsIn after) : after.handle.chain = exec.handle.chain := by
  cases stops with
  | unpaid => rfl
  | loop => rfl
  | instruction stack paid fetched operands =>
      obtain ⟨_, _, same⟩ := Option.map_eq_some_iff.mp fetched
      obtain ⟨_, rfl⟩ := Prod.mk.inj same
      simp [Handle.chain, stack, withStack]

theorem StopsIn.length_stack (stops : exec.StopsIn after) :
    after.handle.stack.length = exec.handle.stack.length := by
  have same := congrArg List.length stops.chain
  simpa only [Handle.chain, List.length_map] using same

theorem StopsIn.getElem?_stack (stops : exec.StopsIn after)
    (found : exec.handle.stack[index]? = some frame) :
    ∃ later, after.handle.stack[index]? = some later ∧ later.kind = frame.kind ∧
      later.scope = frame.scope ∧ later.location = exec.standsAt index frame := by
  cases stops with
  | unpaid unpaid =>
      refine ⟨frame, found, rfl, rfl, ?_⟩
      unfold standsAt
      rw [unpaid]
      split <;> simp_all
  | @loop top outer stack paid codeless =>
      refine ⟨frame, found, rfl, rfl, ?_⟩
      unfold standsAt
      split
      case h_1 _ _ fetched =>
          obtain rfl : top = frame := by simpa [stack] using found
          simp [codeless] at fetched
      case h_2 => rfl
  | @instruction top moved instruction outer stack paid fetched operands =>
      cases index with
      | zero =>
          obtain rfl : top = frame := by simpa [stack] using found
          have kept : moved.kind = top.kind ∧ moved.scope = top.scope := by
            obtain ⟨_, _, same⟩ := Option.map_eq_some_iff.mp fetched
            obtain ⟨_, rfl⟩ := Prod.mk.inj same
            exact ⟨rfl, rfl⟩
          refine ⟨{ moved with operands }, rfl, kept.1, kept.2, ?_⟩
          rw [CallFrame.location_of_fetch fetched operands]
          simp only [standsAt, paid, fetched]
      | succ index =>
          refine ⟨frame, ?_, rfl, rfl, ?_⟩
          · simpa [stack, withStack] using found
          · simp only [standsAt]

/-! ## What is reported -/

theorem step_closes (exec : Execution) : exec.step.1.Closes := by
  have steps := exec.step_cases
  generalize exec.step = outcome at steps ⊢
  cases steps with
  | terminate | finish | complete => exact Checked.closes_of_ok rfl
  | refuse =>
      rintro _ ⟨⟩
      exact ⟨[], _, rfl, rfl⟩
  | loop _ _ _ comes => exact comes.closes
  | dispatch _ _ _ comes => exact comes.closes

theorem step_reports_no_trace (exec : Execution) :
    ∀ event ∈ exec.step.1.events, event.message.reportsTrace = false := by
  have steps := exec.step_cases
  generalize exec.step = outcome at steps ⊢
  cases steps with
  | terminate | finish | complete => simp
  | refuse => simp [Message.reportsTrace]
  | loop _ _ _ comes =>
      exact fun event member => Message.reportsTrace_of_unreserved (comes.unreserved event member)
  | dispatch _ _ _ comes =>
      exact fun event member => Message.reportsTrace_of_unreserved (comes.unreserved event member)

/-- A step that gives up the script reports one fatal fault, last of all. -/
theorem step_reports_fault (givesUp : exec.GivesUp) :
    ∃ earlier fault, exec.step.1.events = earlier ++ [fault] ∧ fault.severity = .fatal ∧
      ∀ each ∈ earlier, Abort.forSeverity each.severity = none := by
  obtain ⟨earlier, fault, raised, demands, mild⟩ :=
    Checked.only_last_is_grave exec.step_proper.graded exec.step_closes givesUp
  refine ⟨earlier, fault, raised, ?_, mild⟩
  cases severity : fault.severity <;> simp [severity, Abort.forSeverity] at demands ⊢

end Execution

/-! ## What is closed -/

/-- The scopes of the innermost frames of a handle are open and local, and closing them leaves none
of them open. -/
theorem Tidy.closes {scopes : Scopes} {lastId : Nat} {handle : Handle} {others : List Handle}
    {inner : CallStack} {chain : List ScopeId} {id : ScopeId}
    (tidy : Tidy scopes lastId (handle :: others))
    (own : handle.chain = inner.map CallFrame.scope ++ chain)
    (member : id ∈ inner.map CallFrame.scope) :
    id ≠ globalScope ∧ (scopes.get? id).isSome = true ∧ (inner.unwind scopes).get? id = none := by
  have owned := tidy.owned
  rw [List.map_cons, own] at owned
  obtain ⟨proper, isOpen⟩ := (owned.live id).mp (by simp [member])
  refine ⟨proper, isOpen, ?_⟩
  have remaining := owned.unwind_inner.2
  have once := owned.once
  rw [List.flatten_cons, List.append_assoc] at once
  have apart := (List.nodup_append.mp once).2.2 id member
  by_contra still
  have theirs := (remaining.live id).mpr ⟨proper, Option.ne_none_iff_isSome.mp still⟩
  exact apart id theirs rfl

namespace Execution

variable {exec : Execution}

/-- What has become of everything once a step that gives up its script has been dealt with. -/
structure Contained (exec : Execution) : Prop where
  /-- The fatal fault is the last event of the step, and the trace comes right after it. -/
  reported : ∃ earlier fault, exec.step.1.events = earlier ++ [fault] ∧
    fault.severity = .fatal ∧ (∀ each ∈ earlier, Abort.forSeverity each.severity = none) ∧
    exec.advance.1 = earlier ++
      [fault, ⟨Fault.stacktrace exec.step.2.trace.text, exec.step.2.location⟩]
  once : exec.advance.1.countP (fun event => event.message.reportsTrace) = 1
  /-- The trace has a line for each frame that there was, the innermost first. -/
  length : exec.step.2.trace.length = exec.handle.stack.length
  lines : ∀ index (frame : CallFrame), exec.handle.stack[index]? = some frame →
    exec.step.2.trace[index]? =
      some (frame.line (exec.handle.stack.length - 1 - index) (exec.standsAt index frame)
        exec.world.scopes)
  handle : exec.Abandoned exec.advance.2
  /-- Of all that scripts share, only the scopes of the frames have changed, and the log has taken
  the events. -/
  world : exec.advance.2.world =
    { (exec.logged exec.advance.1).world with scopes := exec.advance.2.world.scopes }
  global : exec.advance.2.world.scopes.global = exec.world.scopes.global
  own : ∀ id ∈ exec.handle.chain, id ≠ globalScope ∧ (exec.world.scopes.get? id).isSome = true ∧
    exec.advance.2.world.scopes.get? id = none
  kept : ∀ id ∉ exec.handle.chain,
    exec.advance.2.world.scopes.get? id = exec.world.scopes.get? id
  others : ∀ other ∈ exec.world.scheduler.handles, ∀ id ∈ other.chain, id ∉ exec.handle.chain
  /-- The run of the script ends here. -/
  ends : ∀ fuel events,
    exec.run (fuel + 2) events = some (events ++ exec.advance.1, exec.advance.2)

theorem Tidy.contained (tidy : exec.Tidy) (running : exec.handle.state = .running)
    (givesUp : exec.GivesUp) : exec.Contained := by
  have stops := step_stopsIn (.inl rfl) givesUp
  have settled := settle_of_givesUp givesUp
  have events : exec.advance.1 = exec.step.1.events ++
      [⟨Fault.stacktrace exec.step.2.trace.text, exec.step.2.location⟩] :=
    congrArg Prod.fst settled
  have abandoned := advance_abandoned running givesUp
  have world : exec.advance.2.world = { (exec.logged exec.advance.1).world with
      scopes := exec.handle.stack.unwind exec.world.scopes } := by
    have unwound : exec.settle.2.world =
        { exec.step.2.world with
          scopes := exec.step.2.handle.stack.unwind exec.step.2.world.scopes } := by
      rw [settled]
      rfl
    rw [stops.world, CallStack.unwind_congr stops.chain] at unwound
    exact congrArg (fun world : World =>
      { world with logger := world.logger.emitAll exec.advance.1.toArray }) unwound
  have scopes : exec.advance.2.world.scopes = exec.handle.stack.unwind exec.world.scopes := by
    rw [world]
  have trace : exec.step.2.trace = exec.step.2.handle.stack.trace exec.world.scopes := by
    rw [Execution.trace, stops.world]
  constructor
  · obtain ⟨earlier, fault, raised, fatal, mild⟩ := step_reports_fault givesUp
    refine ⟨earlier, fault, raised, fatal, mild, ?_⟩
    rw [events, raised, List.append_assoc]
    rfl
  · have none : exec.step.1.events.countP (fun event => event.message.reportsTrace) = 0 := by
      rw [List.countP_eq_zero]
      intro event member
      simp [exec.step_reports_no_trace event member]
    rw [events, List.countP_append, none]
    rfl
  · rw [trace, CallStack.length_trace, stops.length_stack]
  · intro index frame found
    obtain ⟨later, held, kind, scope, location⟩ := stops.getElem?_stack found
    rw [trace, CallStack.getElem?_trace held, stops.length_stack, location]
    simp only [CallFrame.line, kind, scope]
  · exact abandoned
  · rw [world]
  · rw [scopes, CallStack.unwind_global]
  · intro id own
    rw [scopes]
    exact SimScript.Tidy.closes tidy (List.append_nil _).symm own
  · intro id foreign
    rw [scopes]
    apply CallStack.get?_unwind
    rintro frame member rfl
    exact foreign (List.mem_map_of_mem member)
  · intro other member id theirs ours
    obtain ⟨frame, inStack, rfl⟩ := List.mem_map.mp theirs
    obtain ⟨own, inOwn, same⟩ := List.mem_map.mp ours
    exact tidy.apart member inStack inOwn same.symm
  · intro fuel events
    have ended : exec.advance.2.handle.state ≠ .running := by
      rw [abandoned.state]
      decide
    simp only [run, running, ended, if_true, if_false]

end Execution

/-! ## The rest of the turn -/

/-- How a turn goes on after a script has been given up in it, with those that are still to run. -/
structure Execution.TurnGoesOn (exec : Execution) (rest : List HandleId) (world : World) :
    Prop where
  queue : world.scheduler.queue = exec.world.scheduler.queue
  itself : world.scheduler.get? exec.handle.id = some exec.advance.2.handle
  others : ∀ id, id ≠ exec.handle.id →
    world.scheduler.get? id = exec.world.scheduler.get? id
  waiting : ∀ id ∈ rest, id ≠ exec.handle.id ∧ (exec.world.scheduler.get? id).isSome = true
  visits : ∀ fuel events report done, World.runBatch fuel rest events report world = some done →
    ∃ visits, visits.map Visit.id = rest ∧ World.Visits fuel world visits done.world ∧
      done.answer = report.countAll visits
  comesToAnEnd : ∀ fuel budget events report,
    exec.world.settings.instructionBudget = some budget → 2 * budget + 2 ≤ fuel →
    (World.runBatch fuel rest events report world).isSome = true

theorem Situation.Reachable.turnGoesOn {permits : Store → Value → Prop} {exec : Execution}
    {rest : List HandleId} (reached : Reachable permits (.atWork exec (some rest)))
    (running : exec.handle.state = .running) (givesUp : exec.GivesUp) :
    exec.TurnGoesOn rest (World.keep exec.advance.2.handle exec.advance.2.world) := by
  have contained := Execution.Tidy.contained reached.tidy running givesUp
  have abandoned := contained.handle
  have scheduler : exec.advance.2.world.scheduler = exec.world.scheduler := by
    rw [contained.world]
    rfl
  have kept : Reachable permits
      (.turn rest (World.keep exec.advance.2.handle exec.advance.2.world)) := by
    apply (reached.advance running).keep
    rw [abandoned.state]
    decide
  have alone : exec.handle.id ∉ rest ++ exec.world.scheduler.queue :=
    (List.nodup_cons.mp reached.inLine.once).1
  rw [List.mem_append, not_or] at alone
  constructor
  · have absorbed := Handle.absorbed_of_terminated abandoned.state
    rw [World.keep_queue, scheduler, absorbed]
    · exact List.append_nil _
    · rw [scheduler, abandoned.id]
      exact alone.2
  · rw [← abandoned.id]
    exact World.keep_get?_self
  · intro id different
    rw [← abandoned.id] at different
    rw [World.keep_get?_of_ne different, scheduler]
  · intro id waits
    refine ⟨?_, reached.get?_isSome waits⟩
    rintro rfl
    exact alone.1 waits
  · intro fuel events report done ran
    exact kept.runBatch_visits ran
  · intro fuel budget events report limit enough
    apply kept.runBatch_isSome _ enough
    have same : (World.keep exec.advance.2.handle exec.advance.2.world).settings =
        exec.world.settings := by
      rw [World.keep, contained.world]
      rfl
    rw [same]
    exact limit

/-- Whatever a host does: where a step gives up its script, all that becomes of it stays with that
script, and the turn goes on with the others. -/
theorem fatal_faults_stay_with_their_script (permits : Store → Value → Prop) (exec : Execution)
    (batch : Option (List HandleId)) (reached : Situation.Reachable permits (.atWork exec batch))
    (running : exec.handle.state = .running) (givesUp : exec.GivesUp) :
    exec.Contained ∧ ∀ rest, batch = some rest →
      exec.TurnGoesOn rest (World.keep exec.advance.2.handle exec.advance.2.world) := by
  constructor
  · exact Execution.Tidy.contained reached.tidy running givesUp
  · rintro rest rfl
    exact reached.turnGoesOn running givesUp

/-- The first of two scripts fails in code that it has called, and the second goes on. -/
theorem second_script_outlives_the_first :
    let inner : CodeBlock := [⟨.makeArray 1, Location.host⟩]
    let calls : CodeBlock := [⟨.push (.code 0), Location.host⟩, ⟨.callUnary "call", Location.host⟩]
    let fresh := World.ofSettings {}
    let stocked := { fresh with store := (fresh.store.newBlock inner).2 }
    let first := (stocked.spawn calls [] Location.host).2
    let second := (first.spawn [] [] Location.host).2
    let opened := { second with scheduler := second.scheduler.beginTurn.2 }
    ∃ handle, opened.scheduler.get? 1 = some handle ∧
      let exec := (opened.startKept handle).advance.2.advance.2
      Situation.Reachable (fun _ _ => True) (.atWork exec (some [2])) ∧
        exec.handle.state = .running ∧ exec.GivesUp ∧ exec.step.2.trace.length = 2 ∧
        exec.Contained ∧
        exec.TurnGoesOn [2] (World.keep exec.advance.2.handle exec.advance.2.world) := by
  intro inner calls fresh stocked first second opened
  have idle : Situation.Reachable (fun _ _ => True) (.idle second) := by
    have stock : Situation.Reachable (fun _ _ => True) (.idle stocked) :=
      .tend (.fresh {}) (.newBlock fun _ _ => trivial)
    exact (stock.tend (.spawn (fun _ _ => trivial) fun _ _ => trivial)).tend
      (.spawn (fun _ _ => trivial) fun _ _ => trivial)
  have turn : Situation.Reachable (fun _ _ => True) (.turn [1, 2] opened) := by
    have batch : second.scheduler.beginTurn.1 = [1, 2] := by decide +kernel
    exact batch ▸ idle.beginTurn
  have seen : ((opened.scheduler.get? 1).any fun handle =>
      let begun := opened.startKept handle
      begun.handle.state = .running && begun.advance.2.handle.state = .running &&
        begun.advance.2.advance.2.handle.state = .running &&
        begun.advance.2.advance.2.handle.stack.length = 2 &&
        begun.advance.2.advance.2.step.1.result matches .error .handle) = true := by
    decide +kernel
  obtain ⟨handle, found, seen⟩ := (Option.any_eq_true _ _).mp seen
  simp only [Bool.and_eq_true, decide_eq_true_eq] at seen
  obtain ⟨⟨⟨⟨begins, goesOn⟩, running⟩, frames⟩, fails⟩ := seen
  have reached : Situation.Reachable (fun _ _ => True)
      (.atWork (opened.startKept handle).advance.2.advance.2 (some [2])) :=
    ((turn.take found).advance begins).advance goesOn
  have givesUp : (opened.startKept handle).advance.2.advance.2.GivesUp := by
    unfold Execution.GivesUp
    split at fails <;> simp_all
  obtain ⟨contained, goesOnWith⟩ :=
    fatal_faults_stay_with_their_script (fun _ _ => True) _ _ reached running givesUp
  exact ⟨handle, found, reached, running, givesUp, contained.length.trans frames, contained,
    goesOnWith [2] rfl⟩

end SimScript

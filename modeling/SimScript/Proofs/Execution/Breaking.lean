import SimScript.Proofs.Execution.Account
import SimScript.Proofs.Execution.Calls
import SimScript.Proofs.Value.Types

/-!
# Which command breaks out of scopes

`breakOut` leaves the innermost frame whose scope has the name it is given, and no other
command makes the frames fewer.
-/

namespace SimScript

/-- A frame has the operands for a call that breaks out of the scope of a name with a value. -/
inductive CallFrame.BreaksOut (frame : CallFrame) (name : String) :
    Op → Value → List Value → Prop where
  | alone {command : String} {rest : List Value}
      (called : Text.sameName command "breakOut" = true)
      (operands : frame.operands = .text name :: rest) :
      BreaksOut frame name (.callUnary command) .nil rest
  | valued {command : String} {value : Value} {rest : List Value}
      (called : Text.sameName command "breakOut" = true)
      (operands : frame.operands = .text name :: value :: rest) :
      BreaksOut frame name (.callBinary command) value rest

/-- The innermost frame of a stack whose scope has a name, with the frames on it and below it. -/
structure CallStack.Innermost (scopes : Scopes) (name : String) (stack above : CallStack)
    (frame : CallFrame) (below : CallStack) : Prop where
  whole : stack = above ++ frame :: below
  named : scopes.name? frame.scope = some name
  first : ∀ inner ∈ above, scopes.name? inner.scope ≠ some name

namespace CallStack

variable {scopes : Scopes} {name : String} {stack above below outer : CallStack}
  {frame top : CallFrame}

theorem findNamed?_congr {first second : CallStack}
    (same : first.map CallFrame.scope = second.map CallFrame.scope) :
    first.findNamed? scopes name = second.findNamed? scopes name := by
  induction first generalizing second with
  | nil => rw [List.map_eq_nil_iff.mp same.symm]
  | cons top outer induction =>
      obtain ⟨other, rest, rfl, scope, scopes⟩ := List.map_eq_cons_iff.mp same.symm
      have length : rest.length = outer.length := by
        simpa using congrArg List.length scopes
      rw [findNamed?, findNamed?, scope, length, induction scopes.symm]

theorem Innermost.findNamed? (innermost : Innermost scopes name stack above frame below) :
    stack.findNamed? scopes name = some below.length := by
  obtain ⟨rfl, named, first⟩ := innermost
  induction above with
  | nil => rw [List.nil_append, CallStack.findNamed?, if_pos named]
  | cons top above induction =>
      rw [List.cons_append, CallStack.findNamed?, if_neg (first top List.mem_cons_self)]
      exact induction fun inner member => first inner (List.mem_cons_of_mem _ member)

theorem exists_innermost
    (named : ∃ frame ∈ stack, scopes.name? frame.scope = some name) :
    ∃ above frame below, Innermost scopes name stack above frame below := by
  induction stack with
  | nil => simp at named
  | cons top outer induction =>
      by_cases first : scopes.name? top.scope = some name
      · exact ⟨[], top, outer, rfl, first, by simp⟩
      · obtain ⟨above, frame, below, rfl, found, apart⟩ := induction (by simpa [first] using named)
        refine ⟨top :: above, frame, below, rfl, found, ?_⟩
        simpa [first] using apart

/-- What is taken off down to the innermost scope of a name, also where the frame on top has gone
on. -/
theorem Innermost.parts (innermost : Innermost scopes name (top :: outer) above frame below)
    {changed : CallFrame} (scope : changed.scope = top.scope) :
    let leaving := (changed :: outer).length - below.length
    (changed :: outer).drop leaving = below ∧
      ((changed :: outer).take leaving).map CallFrame.scope =
        (above ++ [frame]).map CallFrame.scope := by
  intro leaving
  have whole : top :: outer = (above ++ [frame]) ++ below := by
    rw [innermost.whole, List.append_assoc, List.singleton_append]
  have height : (above ++ [frame]).length = above.length + 1 := by simp
  have taken : leaving = above.length + 1 := by
    have length := congrArg List.length whole
    simp only [List.length_cons, List.length_append, List.length_nil] at length
    simp only [leaving, List.length_cons]
    omega
  have same : (changed :: outer).map CallFrame.scope = (top :: outer).map CallFrame.scope := by
    rw [List.map_cons, List.map_cons, scope]
  rw [taken]
  constructor
  · have under : (changed :: outer).drop (above.length + 1) =
        (top :: outer).drop (above.length + 1) := rfl
    rw [under, whole, List.drop_left' height]
  · rw [List.map_take, same, ← List.map_take, whole, List.take_left' height]

end CallStack

namespace Execution

variable {exec : Execution} {frame : CallFrame} {outer : CallStack} {name : String}
  {left right : Value}

/-- Work that makes the frames no fewer. -/
def KeepsFrames (exec after : Execution) : Prop :=
  exec.handle.stack.length ≤ after.handle.stack.length

theorem Computes.keepsFrames {after : Execution} (computed : exec.Computes after) :
    exec.KeepsFrames after := by
  obtain ⟨stack, operands, store⟩ := computed
  simp [Execution.KeepsFrames, withStack, stack]

theorem Effect.keepsFrames {effect : Effect} (stack : exec.handle.stack = frame :: outer)
    (keeps : effect.remaining? = none) : exec.KeepsFrames (effect.perform exec) := by
  unfold KeepsFrames
  cases effect with
  | breakOut => cases keeps
  | answer change reply =>
      obtain ⟨value, answered⟩ := answer_stack change reply stack
      rw [answered, stack, List.length_cons, List.length_cons]
  | enter kind code environment bindings =>
      exact Nat.le_succ _
  | suspend wake =>
      have waiting : ((Effect.suspend wake).perform exec).handle.stack = _ :=
        (Handle.become_stack _ _).trans (pushOperand_stack stack)
      rw [waiting, stack, List.length_cons, List.length_cons]

theorem attempt_keepsFrames {work : Execution → Report Execution}
    (keeps : ∀ after, (work exec exec.site).result = .ok after → exec.KeepsFrames after) :
    exec.KeepsFrames (exec.attempt work).2 := by
  unfold attempt
  dsimp only
  split
  case h_1 after result => exact keeps after result
  case h_2 => exact Nat.le_refl _

theorem recover_keepsFrames {message : Message} {next : Execution → Execution}
    (keeps : exec.KeepsFrames (next exec)) :
    exec.KeepsFrames (exec.attempt fun exec => Report.recover message (next exec)).2 := by
  refine attempt_keepsFrames fun given result => ?_
  cases grave : Abort.forSeverity message.severity with
  | some abort => simp [Report.recover, Report.raise, Bind.bind, grave] at result
  | none =>
      obtain rfl : next exec = given := by
        simpa [Report.recover, Report.raise, Bind.bind, Pure.pure, grave] using result
      exact keeps

theorem fulfil_keepsFrames {design : Design} {operands : List Value} {recruits : Prop}
    (stack : exec.handle.stack = frame :: outer)
    (sanctioned : design.Sanctioned recruits exec operands)
    (keeps : design.KeepsFrames exec) : exec.KeepsFrames (exec.fulfil design).2 := by
  cases design with
  | plan made =>
      cases result : (made exec exec.site).result with
      | error abort =>
          have given := attempt_of_plan_error result
          rw [fulfil, given]
          exact Nat.le_refl _
      | ok effect =>
          rw [fulfil, attempt_of_plan_ok result]
          exact Effect.keepsFrames stack (keeps _ _ result)
  | series made =>
      unfold fulfil
      dsimp only
      split
      · exact Nat.le_refl _
      case h_2 plans result =>
          have comes := followAll_comes
              ((Report.Runs.each sanctioned exec.site).yields plans result)
            (Computes.refl stack)
          dsimp only
          cases ended : (exec.followAll plans).1.result with
          | ok => exact (comes.done ended).keepsFrames
          | error abort => exact (comes.failed abort ended).keepsFrames

theorem refuse_keepsFrames (stack : exec.handle.stack = frame :: outer) (message : Message) :
    exec.KeepsFrames (exec.refuse message).2 := by
  refine recover_keepsFrames ?_
  rw [KeepsFrames, pushOperand_stack stack, stack, List.length_cons, List.length_cons]

theorem callNular_keepsFrames (stack : exec.handle.stack = frame :: outer) :
    exec.KeepsFrames (exec.callNular name).2 := by
  rcases callNular_cases name with ⟨command, design, obeys, same⟩ | same
  · rw [same]
    exact fulfil_keepsFrames stack (obeys.sanctioned exec) (obeys.keepsFrames exec)
  · rw [same]
    exact recover_keepsFrames (Nat.le_refl _)

theorem callUnary_keepsFrames (stack : exec.handle.stack = frame :: outer)
    (other : ¬(Text.sameName name "breakOut" = true ∧ right.type = .string)) :
    exec.KeepsFrames (exec.callUnary name right).2 := by
  rcases callUnary_cases name right with
    ⟨command, design, named, accepts, obeys, same⟩ | ⟨message, _, same⟩
  · rw [same]
    rcases obeys.keepsFrames with ⟨called, type⟩ | keeps
    · rw [type, ValueType.accepts_iff (by decide)] at accepts
      exact absurd ⟨called ▸ named, accepts⟩ other
    · exact fulfil_keepsFrames stack (obeys.sanctioned exec) (keeps exec)
  · rw [same]
    exact refuse_keepsFrames stack message

theorem callBinary_keepsFrames (stack : exec.handle.stack = frame :: outer)
    (other : ¬(Text.sameName name "breakOut" = true ∧ right.type = .string)) :
    exec.KeepsFrames (exec.callBinary name left right).2 := by
  rcases callBinary_cases name left right with
    ⟨command, design, named, ⟨_, accepts⟩, obeys, same⟩ | ⟨message, _, same⟩
  · rw [same]
    rcases obeys.keepsFrames with ⟨called, type⟩ | keeps
    · rw [type, ValueType.accepts_iff (by decide)] at accepts
      exact absurd ⟨called ▸ named, accepts⟩ other
    · exact fulfil_keepsFrames stack (obeys.sanctioned exec) (keeps exec)
  · rw [same]
    exact refuse_keepsFrames stack message

theorem attempt_keepsFrames_of_runs {work : Execution → Report Execution}
    (runs : (work exec).Runs exec.KeepsFrames) : exec.KeepsFrames (exec.attempt work).2 :=
  attempt_keepsFrames (runs.each exec.site).yields

theorem assignVariable_keepsFrames (stack : exec.handle.stack = frame :: outer) :
    (assignVariable name exec).Runs exec.KeepsFrames :=
  .bind (popAssigned_computes stack) fun _ computed => .pure computed.keepsFrames

theorem assignLocal_keepsFrames (stack : exec.handle.stack = frame :: outer) :
    (assignLocal name exec).Runs exec.KeepsFrames := by
  refine .bind (popAssigned_computes stack) fun (value, popped) computed => ?_
  dsimp only
  split
  · exact .pure computed.keepsFrames
  · exact .giveUp rfl rfl

/-- An instruction that makes the frames fewer breaks out of the scope of a name. -/
theorem dispatch_breaks {op : Op} (stack : exec.handle.stack = frame :: outer)
    (fewer : (exec.dispatch op).2.handle.stack.length < exec.handle.stack.length) :
    ∃ name value rest, frame.BreaksOut name op value rest := by
  have unchanged : exec.Computes exec := .refl stack
  have keeps : ¬ exec.KeepsFrames (exec.dispatch op).2 := Nat.not_le_of_lt fewer
  have popped := popOperand_of_stack stack
  cases op with
  | push value => exact absurd (unchanged.give (.copy value)).keepsFrames keeps
  | endStatement =>
      refine absurd ?_ keeps
      simp [KeepsFrames, dispatch, mapTop, stack, withStack]
  | getVariable name =>
      exact absurd (attempt_keepsFrames_of_runs
        ((readVariable_computes stack).mono fun _ => Computes.keepsFrames)) keeps
  | assignTo name =>
      exact absurd (attempt_keepsFrames_of_runs (assignVariable_keepsFrames stack)) keeps
  | assignToLocal name =>
      exact absurd (attempt_keepsFrames_of_runs (assignLocal_keepsFrames stack)) keeps
  | makeArray count =>
      exact absurd (attempt_keepsFrames_of_runs
        ((makeArray_computes stack).mono fun _ => Computes.keepsFrames)) keeps
  | callNular name => exact absurd (callNular_keepsFrames stack) keeps
  | callUnary name =>
      cases operands : frame.operands with
      | nil =>
          refine absurd ?_ keeps
          rw [dispatch, popped, operands]
          exact callUnary_keepsFrames stack fun breaks => by cases breaks.2
      | cons right rest =>
          rw [dispatch_callUnary stack operands] at keeps
          have taken : exec.Computes (exec.withStack ({ frame with operands := rest } :: outer)) :=
            .intro stack rest exec.world.store
          by_contra other
          refine keeps (taken.keepsFrames.trans (callUnary_keepsFrames rfl fun breaks => ?_))
          obtain ⟨content, rfl⟩ := Value.eq_text_of_type breaks.2
          exact other ⟨content, .nil, rest, .alone breaks.1 operands⟩
  | callBinary name =>
      cases operands : frame.operands with
      | nil =>
          refine absurd ?_ keeps
          rw [dispatch, popped, operands]
          exact recover_keepsFrames (Nat.le_refl _)
      | cons right rest =>
          cases left : rest with
          | nil =>
              have taken : exec.Computes
                  (exec.withStack ({ frame with operands := [] } :: outer)) :=
                .intro stack [] exec.world.store
              refine absurd ?_ keeps
              rw [dispatch, popped, operands, left]
              exact taken.keepsFrames.trans (recover_keepsFrames (Nat.le_refl _))
          | cons left rest =>
              subst left
              rw [dispatch_callBinary stack operands] at keeps
              have taken :
                  exec.Computes (exec.withStack ({ frame with operands := rest } :: outer)) :=
                .intro stack rest exec.world.store
              by_contra other
              refine keeps (taken.keepsFrames.trans (callBinary_keepsFrames rfl fun breaks => ?_))
              obtain ⟨content, rfl⟩ := Value.eq_text_of_type breaks.2
              exact other ⟨content, left, rest, .valued breaks.1 operands⟩

/-! ## What breaking out does -/

theorem dispatch_breakOut {op : Op} {value : Value} {rest : List Value}
    (breaks : frame.BreaksOut name op value rest) (stack : exec.handle.stack = frame :: outer) :
    exec.dispatch op = (exec.withStack ({ frame with operands := rest } :: outer)).attempt
      (follow (Plan.breakOut value name)) := by
  cases breaks with
  | @alone command rest called operands =>
      have only : Command.unariesOf command = [⟨"breakOut", .string, fun right =>
          Command.breakOut .nil right.content⟩] := by
        rw [Command.unariesOf, Command.named_sameName Command.unaryTable called]
        rfl
      rw [dispatch_callUnary stack operands]
      exact callUnary_of_plan only (Command.breakOut_follows .nil name) rfl
  | @valued command value rest called operands =>
      have only : Command.binariesOf command = [⟨"breakOut", .any, .string,
          fun left right => Command.breakOut left right.content⟩] := by
        rw [Command.binariesOf, Command.named_sameName Command.binaryTable called]
        rfl
      rw [dispatch_callBinary stack operands]
      exact callBinary_of_plan only (Command.breakOut_follows value name) ⟨rfl, rfl⟩

variable {op : Op} {moved target : CallFrame} {above below : CallStack} {value : Value}
  {rest : List Value}

theorem CarriesOut.scope (carries : exec.CarriesOut op moved outer) :
    ∃ top, exec.handle.stack = top :: outer ∧ moved.scope = top.scope := by
  obtain ⟨_, top, instruction, _, stack, fetched, _⟩ := carries
  obtain ⟨_, _, same⟩ := Option.map_eq_some_iff.mp fetched
  exact ⟨top, stack, by rw [← (Prod.mk.inj same).2]⟩

/-- The execution in which the command runs: nothing that scripts share has changed, the frame on
top stands at the call with its operands taken, and the name is still that of the same scope. -/
theorem CarriesOut.popped (carries : exec.CarriesOut op moved outer)
    (breaks : moved.BreaksOut name op value rest) :
    ∃ popped : Execution, popped.world = exec.world ∧
      popped.handle.state = exec.handle.state ∧ popped.location = moved.location ∧
      popped.handle.stack = { moved with operands := rest } :: outer ∧
      popped.handle.stack.findNamed? popped.world.scopes name =
        exec.handle.stack.findNamed? exec.world.scopes name ∧
      exec.step = popped.attempt (follow (Plan.breakOut value name)) := by
  obtain ⟨top, whole, scope⟩ := carries.scope
  obtain ⟨paid, _, instruction, due, stack, fetched, rfl⟩ := carries
  have stands : instruction.location = moved.location :=
    (CallFrame.location_of_fetch fetched moved.operands).symm
  have world : (exec.placed instruction moved).world = exec.world := placed_world
  have state : (exec.placed instruction moved).handle.state = exec.handle.state := placed_state
  let popped := (exec.placed instruction moved).withStack ({ moved with operands := rest } :: outer)
  have same : popped.handle.stack.map CallFrame.scope = exec.handle.stack.map CallFrame.scope := by
    rw [whole, List.map_cons, ← scope]
    rfl
  have shared : popped.world.scopes = exec.world.scopes := congrArg World.scopes world
  have found : popped.handle.stack.findNamed? popped.world.scopes name =
      exec.handle.stack.findNamed? exec.world.scopes name := by
    rw [shared, CallStack.findNamed?_congr same]
  refine ⟨popped, world, state, stands, rfl, found, ?_⟩
  rw [← dispatch_breakOut breaks (placed_stack stack), ← stepFrame_of_fetch fetched paid]
  simp [Execution.step, due.proceeds, stack]

/-- Breaking out of the scope of a name takes off the frames down to the innermost one, closes their
scopes, and hands the value to what remains. -/
theorem CarriesOut.leavesTo (carries : exec.CarriesOut op moved outer)
    (breaks : moved.BreaksOut name op value rest)
    (innermost : CallStack.Innermost exec.world.scopes name exec.handle.stack above target below) :
    ∃ left : Execution, left.handle.stack = below ∧ left.handle.state = exec.handle.state ∧
      left.world = { exec.world with
        scopes := CallStack.unwind (above ++ [target]) exec.world.scopes } ∧
      exec.advance = ([], left.deliver value) := by
  obtain ⟨popped, world, state, _, stack, found, made⟩ := carries.popped breaks
  obtain ⟨top, whole, scope⟩ := carries.scope
  have planned : Plan.breakOut value name popped = pure (.breakOut below.length value) := by
    rw [Plan.breakOut, found, innermost.findNamed?]
  have asked : (Plan.breakOut value name popped popped.site).result =
      .ok (.breakOut below.length value) := by
    rw [planned]
    rfl
  rw [whole] at innermost
  have goesOn : { moved with operands := rest }.scope = top.scope := scope
  obtain ⟨remaining, leaving⟩ := innermost.parts goesOn
  rw [← stack] at remaining leaving
  refine ⟨popped.leaveTo below.length, remaining, state, ?_, ?_⟩
  · rw [← CallStack.unwind_congr leaving, ← world]
    rfl
  · rw [attempt_of_plan_ok asked, planned] at made
    exact advance_of_silent made

theorem CarriesOut.refuses (carries : exec.CarriesOut op moved outer)
    (breaks : moved.BreaksOut name op value rest)
    (nameless : ∀ frame ∈ exec.handle.stack, exec.world.scopes.name? frame.scope ≠ some name) :
    ∃ popped : Execution, popped.world = exec.world ∧
      popped.handle.state = exec.handle.state ∧
      popped.handle.stack = { moved with operands := rest } :: outer ∧
      exec.step = (⟨.error .statement,
        [⟨Fault.errorMessage "breakOut" s!"no scope named '{name}'", moved.location⟩]⟩,
          popped) := by
  obtain ⟨popped, world, state, location, stack, found, made⟩ := carries.popped breaks
  have planned : Plan.breakOut value name popped =
      Plan.fail (.errorMessage "breakOut" s!"no scope named '{name}'") := by
    rw [Plan.breakOut, found, CallStack.findNamed?_eq_none nameless]
  have refused : (Plan.breakOut value name popped popped.site).result =
      .error .statement := by
    rw [planned]
    rfl
  rw [attempt_of_plan_error refused, planned] at made
  refine ⟨popped, world, state, stack, made.trans ?_⟩
  rw [← location]
  rfl

/-- A step that carries out an instruction, makes the frames fewer and leaves some has broken out of
the innermost scope of a name. -/
theorem CarriesOut.breaks (carries : exec.CarriesOut op moved outer)
    (layered : exec.handle.stack.Layered)
    (fewer : exec.advance.2.handle.stack.length < exec.handle.stack.length)
    (inside : exec.advance.2.handle.stack ≠ []) :
    ∃ name value rest above target below, moved.BreaksOut name op value rest ∧
      CallStack.Innermost exec.world.scopes name exec.handle.stack above target below := by
  obtain ⟨instruction, placed, made⟩ := carries.step
  obtain ⟨top, whole, _⟩ := carries.scope
  have block : moved.kind.isController = false := by
    obtain ⟨_, frame, _, _, stack, fetched, _⟩ := carries
    rw [stack] at layered
    exact (block_of_fetch layered fetched).1
  have settled : exec.advance.2.handle.stack = exec.settle.2.handle.stack := rfl
  rw [settled] at fewer inside
  -- A statement that is given up leaves all frames where they are.
  have passes : ∀ {abort}, exec.step.1.result ≠ .error abort := by
    intro abort failed
    have comes : Outcome.Comes _ (exec.placed instruction moved).Computes exec.step :=
      made ▸ dispatch_comes placed
    obtain ⟨operands, kept⟩ := (comes.failed abort failed).stack placed
    have after : exec.settle.2 = exec.step.2.abandonStatement ∨
        exec.settle.2 = exec.step.2.abandonHandle := by
      cases abort <;> simp [settle, failed]
    rcases after with after | after
    · rw [after, abandonStatement_stack (leaveLoops_of_block kept block), whole] at fewer
      simp at fewer
    · exact inside (after ▸ terminate_stack exec.step.2)
  have done : exec.settle.2 = exec.step.2 := by
    cases result : exec.step.1.result with
    | ok => simp only [settle, result]
    | error abort => exact absurd result passes
  have height : exec.handle.stack.length = (moved :: outer).length := by
    rw [whole]
    rfl
  rw [done, made, height, ← placed] at fewer
  obtain ⟨name, value, rest, breaks⟩ := dispatch_breaks placed fewer
  by_cases named : ∃ frame ∈ exec.handle.stack, exec.world.scopes.name? frame.scope = some name
  · obtain ⟨above, target, below, innermost⟩ := CallStack.exists_innermost named
    exact ⟨name, value, rest, above, target, below, breaks, innermost⟩
  · obtain ⟨_, _, _, _, refused⟩ := carries.refuses breaks fun frame member same =>
      named ⟨frame, member, same⟩
    have failed : exec.step.1.result = .error .statement := by rw [refused]
    exact absurd failed passes

end Execution

end SimScript

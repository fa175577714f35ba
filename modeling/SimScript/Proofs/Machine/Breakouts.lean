import Mathlib
import SimScript.Proofs.Execution.Exits
import SimScript.Proofs.Machine.Abandonment

/-!
# Breaking out of a scope

`breakOut` leaves the innermost frame whose scope has the name it is given, and all
frames on that one.  Their scopes are closed, nothing else that scripts share changes,
and the frame below takes the value; where there is none, the handle comes to its end
with it.  If no scope of a frame has the name, the statement is given up with one error,
and all frames and scopes stay.
-/

namespace SimScript

namespace Execution

/-- What has become of everything once some frames have been left, and a value has been handed to
those below. -/
structure LeavesWith (exec : Execution) (left below : CallStack) (value : Value) : Prop where
  events : exec.advance.1 = []
  /-- The frame on top takes the value: a loop to look at it, any other as an operand. -/
  stack : exec.advance.2.handle.stack = below.receive value
  /-- The scopes of the frames are open, and are closed from the innermost on. -/
  closes : left.foldlM (fun scopes frame => scopes.pop frame.scope) exec.world.scopes =
    .ok exec.advance.2.world.scopes
  scopes : ∀ id, exec.advance.2.world.scopes.get? id =
    if id ∈ left.map CallFrame.scope then none else exec.world.scopes.get? id
  /-- Of all that scripts share, only the scopes have changed. -/
  world : exec.advance.2.world = { exec.world with scopes := exec.advance.2.world.scopes }
  ended : below = [] →
    exec.advance.2.handle.state = .finished ∧ exec.advance.2.handle.result = value
  goesOn : below ≠ [] → exec.advance.2.handle.state = .running

/-- What has become of everything once the statement of the frame on top has been given up with one
error, before anything but the operands has changed. -/
structure SkipsWith (exec : Execution) (fault : Fault) (moved : CallFrame) (rest : List Value)
    (outer : CallStack) : Prop where
  aborts : exec.step.1 = ⟨.error .statement, [⟨fault, moved.location⟩]⟩
  stops : exec.step.2.handle.stack = { moved with operands := rest } :: outer
  events : exec.advance.1 = [⟨fault, moved.location⟩]
  stack : exec.advance.2.handle.stack = moved.skipStatement :: outer
  state : exec.advance.2.handle.state = .running
  /-- Of all that scripts share, only the log has changed. -/
  world : exec.advance.2.world = (exec.logged exec.advance.1).world

variable {exec : Execution} {op : Op} {moved frame target : CallFrame}
  {above below outer : CallStack} {name : String} {value : Value} {rest : List Value}

theorem CarriesOut.block (carries : exec.CarriesOut op moved outer)
    (layered : exec.handle.stack.Layered) : moved.kind.isController = false := by
  obtain ⟨_, top, instruction, _, stack, fetched, _⟩ := carries
  rw [stack] at layered
  exact (block_of_fetch layered fetched).1

theorem CarriesOut.leaves (carries : exec.CarriesOut op moved outer)
    (breaks : moved.BreaksOut name op value rest) (tidy : exec.Tidy)
    (running : exec.handle.state = .running)
    (innermost : CallStack.Innermost exec.world.scopes name exec.handle.stack above target below) :
    exec.LeavesWith (above ++ [target]) below value := by
  obtain ⟨left, stack, state, unwound, advanced⟩ := carries.leavesTo breaks innermost
  have world : exec.advance.2.world = left.world := by rw [advanced, deliver_world]
  have own : exec.handle.chain =
      (above ++ [target]).map CallFrame.scope ++ below.map CallFrame.scope := by
    rw [Handle.chain, innermost.whole, ← List.map_append, List.append_assoc,
      List.singleton_append]
  have owned := tidy.owned
  rw [List.map_cons, own] at owned
  refine ⟨?_, ?_, ?_, ?_, ?_, ?_, ?_⟩
  · rw [advanced]
  · rw [advanced, deliver_stack, stack]
  · rw [world, unwound]
    exact owned.unwind_inner.1
  · intro id
    rw [world, unwound]
    split
    case isTrue member => exact (SimScript.Tidy.closes tidy own member).2.2
    case isFalse apart =>
        exact CallStack.get?_unwind fun frame inside same =>
          apart (same ▸ List.mem_map_of_mem inside)
  · rw [world, unwound]
  · intro outside
    rw [advanced]
    exact deliver_of_nil (state.trans running) (stack.trans outside)
  · intro inside
    rw [advanced, deliver_state value (stack ▸ inside), state, running]

/-- Where no scope of a frame has the name, the call reports that and nothing else happens. -/
theorem CarriesOut.skips (carries : exec.CarriesOut op moved outer)
    (breaks : moved.BreaksOut name op value rest) (layered : exec.handle.stack.Layered)
    (running : exec.handle.state = .running)
    (nameless : ∀ frame ∈ exec.handle.stack, exec.world.scopes.name? frame.scope ≠ some name) :
    exec.SkipsWith (.errorMessage "breakOut" s!"no scope named '{name}'") moved rest outer := by
  obtain ⟨popped, world, state, stack, made⟩ := carries.refuses breaks nameless
  have reported : exec.step.1 = ⟨.error .statement,
      [⟨Fault.errorMessage "breakOut" s!"no scope named '{name}'", moved.location⟩]⟩ := by
    rw [made]
  have stops : exec.step.2 = popped := by rw [made]
  have advanced : exec.advance =
      (exec.step.1.events, popped.abandonStatement.logged exec.step.1.events) := by
    rw [advance_of_statement (congrArg Checked.result reported), stops]
  have block : { moved with operands := rest }.kind.isController = false := carries.block layered
  have abandoned := abandonStatement_of_stack (show popped.handle.stack = [] ++ _ from stack)
    (fun _ member => absurd member List.not_mem_nil) block
  have unchanged : popped.abandonStatement.world = exec.world := by
    rw [abandoned, ← world]
    rfl
  refine ⟨reported, ?_, ?_, ?_, ?_, ?_⟩
  · rw [stops, stack]
  · rw [advanced, reported]
  · rw [advanced, abandoned]
    rfl
  · rw [advanced, abandoned]
    exact state.trans running
  · rw [advanced]
    exact congrArg (fun world : World =>
      { world with logger := world.logger.emitAll exec.step.1.events.toArray }) unchanged

end Execution

/-- Whatever a host does: a call that breaks out of the scope of a name leaves the innermost frame
whose scope has the name and all frames on it, closes their scopes and no other, and hands the value
to the frame below, or ends the handle with it where there is none.  If no scope of a frame has the
name, the call gives up its statement with one error, and no frame below and no scope changes. -/
theorem breakOut_leaves_up_to_the_named_scope (permits : Store → Value → Prop) (exec : Execution)
    (batch : Option (List HandleId)) (reached : Situation.Reachable permits (.atWork exec batch))
    (running : exec.handle.state = .running) (op : Op) (moved : CallFrame) (outer : CallStack)
    (carries : exec.CarriesOut op moved outer) (name : String) (value : Value) (rest : List Value)
    (breaks : moved.BreaksOut name op value rest) :
    ((∃ frame ∈ exec.handle.stack, exec.world.scopes.name? frame.scope = some name) →
      ∃ above target below,
        CallStack.Innermost exec.world.scopes name exec.handle.stack above target below ∧
        exec.LeavesWith (above ++ [target]) below value) ∧
    ((∀ frame ∈ exec.handle.stack, exec.world.scopes.name? frame.scope ≠ some name) →
      exec.SkipsWith (.errorMessage "breakOut" s!"no scope named '{name}'") moved rest outer) := by
  have layered := reached.layered exec.handle List.mem_cons_self (Handle.live_of_running running)
  refine ⟨fun named => ?_, fun nameless => carries.skips breaks layered running nameless⟩
  obtain ⟨above, target, below, innermost⟩ := CallStack.exists_innermost named
  exact ⟨above, target, below, innermost, carries.leaves breaks reached.tidy running innermost⟩

/-- Two scopes of one name: the code that breaks out leaves the inner one only, and the frame of the
outer one takes the number. -/
theorem breakOut_to_the_inner_of_two_scopes :
    let leaving : CodeBlock := [⟨.push (.scalar 7), Location.host⟩,
      ⟨.push (.text "scope"), Location.host⟩, ⟨.callBinary "breakOut", Location.host⟩]
    let naming (block : BlockId) : CodeBlock := [⟨.push (.text "scope"), Location.host⟩,
      ⟨.callUnary "scopeName", Location.host⟩, ⟨.endStatement, Location.host⟩,
      ⟨.push (.code block), Location.host⟩, ⟨.callUnary "call", Location.host⟩]
    let world := World.ofSettings {}
    let stocked := { world with
      store := ((world.store.newBlock leaving).2.newBlock (naming 0)).2 }
    let exec (steps : Nat) := (fun exec => exec.advance.2)^[steps] (stocked.startAtOnce (naming 1))
    ∃ inner target below, (exec 12).handle.stack = [inner, target, below] ∧
      (exec 12).world.scopes.name? below.scope = some "scope" ∧
      (exec 12).LeavesWith [inner, target] [below] (.scalar 7) := by
  intro leaving naming world stocked exec
  let issuer : CallFrame :=
    { kind := .block, code := leaving, ip := 2, operands := [.text "scope", .scalar 7], scope := 3,
      environment := .unscheduled, origin := Location.host }
  let caller (block : BlockId) : CallFrame :=
    { kind := .block, code := naming block, ip := 5, scope := 2 - block,
      environment := .unscheduled, origin := Location.host }
  have stack : (exec 12).handle.stack = [issuer, caller 0, caller 1] := by
    subst caller issuer exec stocked world naming leaving
    cbv
  obtain ⟨running, free, names⟩ : (∀ steps ≤ 12, (exec steps).handle.state = .running) ∧
      ((exec 12).world.settings.instructionBudget = none ∧
        (exec 12).handle.terminateRequested = false) ∧
      [3, 2, 1].map (exec 12).world.scopes.name? = [none, some "scope", some "scope"] := by
    decide +kernel
  have reached : Situation.Reachable (fun _ _ => True) (.atWork (exec 12) none) := by
    refine Situation.Reachable.iterate (.execute ?_ fun _ _ => trivial)
      fun made earlier => running made (by omega)
    exact .tend (.tend (.fresh {}) (.newBlock fun _ _ => trivial)) (.newBlock fun _ _ => trivial)
  have carries : (exec 12).CarriesOut (.callBinary "breakOut") { issuer with ip := 3 }
      [caller 0, caller 1] :=
    Execution.carriesOut_of_fetch free.1 free.2 stack rfl
  clear_value exec
  simp only [List.map_cons, List.map_nil, List.cons.injEq, and_true] at names
  obtain ⟨nameless, inner, outer⟩ := names
  have named : ∃ frame ∈ (exec 12).handle.stack,
      (exec 12).world.scopes.name? frame.scope = some "scope" :=
    ⟨caller 0, by simp [stack], inner⟩
  obtain ⟨above, target, below, innermost, leaves⟩ :=
    (breakOut_leaves_up_to_the_named_scope (fun _ _ => True) (exec 12) none reached
      (running 12 (by omega)) _ _ _ carries "scope" (.scalar 7) []
      (.valued (Text.sameName_self _) rfl)).1 named
  have depth := innermost.findNamed?
  have whole := innermost.whole
  rw [stack] at depth whole
  have one : below.length = 1 := by
    simpa [CallStack.findNamed?, issuer, caller, nameless, inner] using depth.symm
  have parts : [issuer] ++ [caller 0, caller 1] = above ++ target :: below := whole
  obtain ⟨rfl, rest⟩ := List.append_inj' parts (by simp [one])
  obtain ⟨rfl, rfl⟩ := List.cons.inj rest
  exact ⟨issuer, caller 0, caller 1, stack, outer, leaves⟩

end SimScript

import SimScript.Proofs.Execution.Environment
import SimScript.Proofs.Execution.Loops
import SimScript.Proofs.Machine.ScopeOwnership
import SimScript.Proofs.Scope.Assignment

/-!
# Loops that enter their bodies

A loop gives values to variables of its own scope and enters a block, which sees them; or
it is left, and the frame below takes nil.
-/

namespace SimScript

/-- What an open scope holds under a name. -/
def Scopes.held? (scopes : Scopes) (id : ScopeId) (name : String) : Option Value :=
  (scopes.get? id).bind fun scope => scope.get? name

theorem Scopes.declare_of_bind {scopes after : Scopes} {id : ScopeId} {name : String}
    {value : Value} (bound : scopes.bind id name value = some after) :
    scopes.declare id name value = .ok after := by
  rw [declare, bound]

theorem Scopes.held?_of_bind {scopes after : Scopes} {target : ScopeId} {name : String}
    {value : Value} (bound : scopes.bind target name value = some after) (id : ScopeId)
    (other : String) :
    after.held? id other =
      if id = target ∧ other = name then some value else scopes.held? id other :=
  (bind_assigned bound).value_eq id other

theorem Scopes.resolve_push {scopes : Scopes} {id : ScopeId} {name : String} {value : Value}
    (tight : scopes.Tight) (inner : id ≠ globalScope) (held : scopes.held? id name = some value) :
    (scopes.push (some id)).2.resolve (some (scopes.push (some id)).1) name = some value := by
  obtain ⟨scope, around, bound⟩ := Option.bind_eq_some_iff.mp held
  have new : (scopes.push (some id)).2.get? (scopes.push (some id)).1 =
      some { parent := some id } := by
    rw [get?_push (some id) [] tight, if_pos rfl, opened, Option.filter_some,
      if_pos (by simpa using inner)]
  have old : (scopes.push (some id)).2.get? id = some scope := get?_push_of_get? tight around
  have holder : (scopes.push (some id)).2.holder (some (scopes.push (some id)).1) name =
      some id := by
    simp only [holder, holderWithin, new, old, bound]
    rfl
  simp only [resolve, holder, old, bound, Option.bind_some]

namespace Execution

/-- The next step of a loop leaves it with some reports, and the frame below takes nil. -/
structure EndsLoop (exec : Execution) (outer : CallStack) (faults : List Fault) : Prop where
  events : exec.advance.1 = faults.map fun fault => ⟨.fault fault, exec.location⟩
  state : exec.advance.2.handle.state = .running
  stack : ∃ caller rest, outer = caller :: rest ∧
    exec.advance.2.handle.stack = caller.push .nil :: rest

/-- The next step of a loop enters a block, which is about to begin and sees what the scope of the
loop holds; the loop below it goes on as one of some kind. -/
structure Enters (exec : Execution) (loop : CallFrame) (outer : CallStack) (kind : FrameKind)
    (body : CodeBlock) (scopes : Scopes) : Prop where
  events : exec.advance.1 = []
  state : exec.advance.2.handle.state = .running
  stack : ∃ block,
    exec.advance.2.handle.stack = block :: { loop with kind, delivered := none } :: outer ∧
    block.kind = .block ∧ block.code = body ∧ block.ip = 0 ∧ block.operands = []
  held : ∀ {name value}, scopes.held? loop.scope name = some value →
    exec.advance.2.world.scopes.held? loop.scope name = some value
  seen : ∀ {name value}, scopes.held? loop.scope name = some value →
    exec.advance.2.resolve name = some value

variable {exec after : Execution} {loop : CallFrame} {outer : CallStack}

theorem AtLoop.advance_eq {events : List Event} (atLoop : exec.AtLoop loop outer)
    (made : exec.charged.stepLoop loop exec.site = ⟨.ok after, events⟩) :
    exec.advance = (events, after.logged events) := by
  have step := atLoop.step_eq
  have located : exec.charged.site = exec.site := rfl
  simp only [attempt, located, made] at step
  exact advance_of_ok step

theorem atLoop_of_grows (running : exec.handle.state = .running)
    (layered : exec.handle.stack.Layered) (stack : exec.handle.stack = loop :: outer)
    (loops : loop.kind.isController = true)
    (grows : outer.length + 1 < exec.advance.2.handle.stack.length) : exec.AtLoop loop outer := by
  have proceeds : exec.handle.terminateRequested = false := by
    by_contra proceeds
    have requested : exec.handle.terminateRequested = true := by simpa using proceeds
    have ended : exec.step = (⟨.ok (), []⟩, exec.terminate) := by simp [step, requested]
    simp [advance_of_silent ended, terminate_stack] at grows
  refine ⟨running, proceeds, ?_, layered, stack, loops⟩
  cases paid : exec.charge? with
  | some charged => rw [charge?_eq_some charged paid]
  | none =>
      have ended : exec.settle.2 = exec.abandonHandle := by
        simp [settle, step, stepFrame, proceeds, stack, loops, paid]
      have outside : exec.advance.2.handle.stack = [] :=
        (congrArg (fun after => after.handle.stack) ended).trans (terminate_stack exec)
      simp [outside] at grows

theorem AtLoop.endsLoop {faults : List Fault} (atLoop : exec.AtLoop loop outer)
    (made : exec.charged.stepLoop loop exec.site =
      ⟨.ok exec.charged.leaveLoop, faults.map fun fault => ⟨.fault fault, exec.location⟩⟩) :
    exec.EndsLoop outer faults := by
  have advanced := atLoop.advance_eq made
  obtain ⟨caller, rest, rfl, block⟩ := (atLoop.stack ▸ atLoop.layered).below_loop atLoop.loops
  have left : exec.charged.leave.handle.stack = caller :: rest := by
    rw [leave_stack]
    exact congrArg (List.drop 1) atLoop.stack
  have delivered : exec.charged.leaveLoop.handle.stack = caller.push .nil :: rest ∧
      exec.charged.leaveLoop.handle.state = .running := by
    have running := (leave_state exec.charged).trans atLoop.running
    simpa [leaveLoop, deliver, left, block, withStack] using running
  refine ⟨by rw [advanced], ?_, caller, rest, rfl, ?_⟩
  · rw [advanced]
    exact delivered.2
  · rw [advanced]
    exact delivered.1

theorem AtLoop.scope_eq (atLoop : exec.AtLoop loop outer) : exec.scope = loop.scope := by
  simp [Execution.scope, Handle.top?, atLoop.stack]

theorem AtLoop.scope_open (atLoop : exec.AtLoop loop outer) (tidy : exec.Tidy) :
    loop.scope ≠ globalScope ∧ (exec.world.scopes.get? loop.scope).isSome := by
  refine (Tidy.matchFrames tidy).live loop.scope |>.mpr
    ⟨exec.handle, List.mem_cons_self, loop, ?_, rfl⟩
  rw [atLoop.stack]
  exact List.mem_cons_self

theorem AtLoop.enters {kind : FrameKind} {body : CodeBlock} {scopes : Scopes}
    (atLoop : exec.AtLoop loop outer) (inner : loop.scope ≠ globalScope) (tight : scopes.Tight)
    (made : exec.charged.stepLoop loop exec.site =
      ⟨.ok (((exec.charged.setLoop kind).withScopes scopes).enterBlock body), []⟩) :
    exec.Enters loop outer kind body scopes := by
  have charged : exec.charged.handle.stack = loop :: outer := atLoop.stack
  let ready := (exec.charged.setLoop kind).withScopes scopes
  have stack : ready.handle.stack = { loop with kind, delivered := none } :: outer :=
    setLoop_stack charged
  have inside : ready.scope = loop.scope := by simp [Execution.scope, Handle.top?, stack]
  have advanced : exec.advance = ([], ready.enterBlock body) := atLoop.advance_eq made
  have pushed : (ready.enterBlock body).world.scopes = (scopes.push (some loop.scope)).2 ∧
      (ready.enterBlock body).scope = (scopes.push (some loop.scope)).1 := by
    rw [← inside]
    exact ⟨rfl, rfl⟩
  constructor
  · rw [advanced]
  · rw [advanced]
    exact (mapTop_state _).trans atLoop.running
  · obtain ⟨block, entered⟩ := enterBlock_stack charged kind scopes body
    rw [advanced]
    exact ⟨block, entered⟩
  · intro name value held
    obtain ⟨around, opened, bound⟩ := Option.bind_eq_some_iff.mp held
    rw [advanced, pushed.1, Scopes.held?, Scopes.get?_push_of_get? tight opened,
      Option.bind_some, bound]
  · intro name value held
    rw [advanced, resolve, pushed.1, pushed.2]
    exact Scopes.resolve_push tight inner held

end Execution

end SimScript

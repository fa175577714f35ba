import SimScript.Proofs.Machine.FrameDiscipline
import SimScript.Proofs.Machine.Isolation

/-!
# Private variables stay private

A private variable lives in a scope of one script.  Asking for it by name, or asking
whether it is nil, has the same answer whatever the global scope holds; together with
the isolation of scripts this keeps private variables out of the reach of others.
-/

namespace SimScript

/-- An operation asks for a variable: for its value, or whether it is nil. -/
inductive Op.Asks (name : String) : Op → List Value → Prop where
  | value (operands : List Value) : Asks name (.getVariable name) operands
  | isNil {spelling : String} (named : Text.sameName spelling "isNil" = true)
      (rest : List Value) : Asks name (.callUnary spelling) (.text name :: rest)

/-- The next instruction of a frame asks for a variable. -/
def CallFrame.Reads (frame : CallFrame) (name : String) : Prop :=
  ∃ instruction moved, frame.fetch? = some (instruction, moved) ∧
    Op.Asks name instruction.op frame.operands

theorem Command.isNil_found {spelling : String}
    (named : Text.sameName spelling "isNil" = true) :
    unaryFor? (unariesOf spelling) .string = some (unary "isNil" .string isNilVariable) := by
  rw [unariesOf, named_sameName unaryTable named]
  rfl

namespace Execution

variable {touched : ScopeId → Prop} {exec after : Execution} {frame : CallFrame}
  {outer : CallStack}

def withGlobal (exec : Execution) (global : Scope) : Execution :=
  exec.withScopes { exec.world.scopes with global }

/-- A private variable has its value from a scope of the handle at work. -/
theorem Tidy.resolve_own {name : String} {value : Value} (tidy : exec.Tidy)
    (stack : exec.handle.stack = frame :: outer) (hidden : isPrivate name = true)
    (resolved : exec.resolve name = some value) :
    ∃ own ∈ exec.handle.stack, own.scope ≠ globalScope ∧ ∃ scope,
      exec.world.scopes.get? own.scope = some scope ∧ scope.get? name = some value := by
  have guards := tidy.guards
  have lineage := guards.lineage (chain_eq stack)
  rw [resolve, scope_eq stack] at resolved
  obtain ⟨id, member, scope, opened, held⟩ := lineage.resolve_mem hidden resolved
  rw [← chain_eq stack] at member
  obtain ⟨own, inside, rfl⟩ := List.mem_map.mp member
  exact ⟨own, inside, guards.locals _ (guards.own _ member), scope, opened, held⟩

section Global

variable {global : Scope} {name : String}

theorem mapTop_withGlobal (change : CallFrame → CallFrame) :
    (exec.withGlobal global).mapTop change = (exec.mapTop change).withGlobal global := by
  unfold mapTop withGlobal
  dsimp only [withScopes]
  split <;> rfl

theorem pushOperand_withGlobal (value : Value) :
    (exec.withGlobal global).pushOperand value = (exec.pushOperand value).withGlobal global :=
  mapTop_withGlobal _

theorem placed_withGlobal (instruction : Instruction) (moved : CallFrame) :
    (exec.withGlobal global).placed instruction moved =
      (exec.placed instruction moved).withGlobal global := by
  have moving : (exec.charged.withGlobal global).mapTop (fun _ => moved) =
      (exec.charged.mapTop fun _ => moved).withGlobal global := mapTop_withGlobal _
  exact congrArg (fun exec => { exec with location := instruction.location }) moving

theorem terminate_withGlobal :
    (exec.withGlobal global).terminate = exec.terminate.withGlobal global := by
  have unwound := CallStack.unwind_withGlobal exec.handle.stack exec.world.scopes global
  simp only [terminate, withGlobal, withScopes, withStack, unwound]

theorem attempt_withGlobal {work : Execution → Report Execution}
    (same : work (exec.withGlobal global) =
      (fun after => after.withGlobal global) <$> work exec) :
    (exec.withGlobal global).attempt work =
      ((exec.attempt work).1, (exec.attempt work).2.withGlobal global) := by
  have done : work (exec.withGlobal global) (exec.withGlobal global).site = _ :=
    (congrFun same _).trans (Report.map_apply _ _ _)
  have before : (exec.withGlobal global).site = exec.site := rfl
  rw [before] at done
  unfold attempt
  rw [before, done]
  dsimp only
  cases (work exec exec.site).result <;> rfl

theorem resolve_withGlobal (guards : exec.world.scopes.Guards touched exec.handle.chain)
    (stack : exec.handle.stack = frame :: outer) (hidden : isPrivate name = true) :
    (exec.withGlobal global).resolve name = exec.resolve name := by
  have lineage := guards.lineage (chain_eq stack)
  have locals : ∀ id ∈ frame.scope :: outer.map CallFrame.scope, id ≠ globalScope := by
    rw [← chain_eq stack]
    exact fun id member => guards.locals id (guards.own id member)
  have scope : (exec.withGlobal global).scope = frame.scope := scope_eq stack
  rw [resolve, resolve, scope, scope_eq stack]
  exact lineage.resolve_global locals hidden global

theorem readVariable_withGlobal
    (same : (exec.withGlobal global).resolve name = exec.resolve name) :
    readVariable name (exec.withGlobal global) =
      (fun after => after.withGlobal global) <$> readVariable name exec := by
  unfold readVariable
  rw [same]
  split
  · rw [map_pure, pushOperand_withGlobal]
  · simp only [Report.recover, map_bind, map_pure, pushOperand_withGlobal]

theorem isNilVariable_withGlobal (right : Value)
    (same : (exec.withGlobal global).resolve right.content = exec.resolve right.content) :
    follow (.ofQuery (Command.isNilVariable right)) (exec.withGlobal global) =
      (fun after => after.withGlobal global) <$>
        follow (.ofQuery (Command.isNilVariable right)) exec := by
  let answer := Value.boolean ((exec.resolve right.content).all Value.isNil)
  have pushed : (exec.withGlobal global).pushOperand answer =
      (exec.pushOperand answer).withGlobal global := pushOperand_withGlobal answer
  simp only [follow, Plan.ofQuery, Command.isNilVariable, Command.reply, pure_bind, map_pure, same]
  exact congrArg pure pushed

theorem dispatch_isNil {spelling : String} {rest : List Value}
    (named : Text.sameName spelling "isNil" = true)
    (stack : exec.handle.stack = { frame with operands := .text name :: rest } :: outer) :
    exec.dispatch (.callUnary spelling) =
      (exec.withStack ({ frame with operands := rest } :: outer)).attempt
        (follow (.ofQuery (Command.isNilVariable (.text name)))) := by
  have found := Command.isNil_found named
  rw [dispatch_callUnary stack rfl, callUnary]
  split
  case h_1 nothing => simp [nothing, Command.unaryFor?] at found
  case h_2 =>
      have type : (Value.text name).type = .string := rfl
      rw [type, found]
      rfl

theorem dispatch_withGlobal {op : Op} (global : Scope)
    (guards : exec.world.scopes.Guards touched exec.handle.chain)
    (stack : exec.handle.stack = frame :: outer) (asks : op.Asks name frame.operands)
    (hidden : isPrivate name = true) :
    (exec.withGlobal global).dispatch op =
      ((exec.dispatch op).1, (exec.dispatch op).2.withGlobal global) := by
  generalize operands : frame.operands = values at asks
  cases asks with
  | value =>
      exact attempt_withGlobal (readVariable_withGlobal (resolve_withGlobal guards stack hidden))
  | isNil named rest =>
      have before : exec.handle.stack = { frame with operands := .text name :: rest } :: outer := by
        rw [stack, ← operands]
      have replaced : (exec.withGlobal global).handle.stack =
          { frame with operands := .text name :: rest } :: outer := before
      -- The name is taken off the operands first; that leaves the chain of scopes as it is.
      let popped := exec.withStack ({ frame with operands := rest } :: outer)
      have chain : popped.handle.chain = exec.handle.chain := by
        rw [chain_eq stack]
        rfl
      have kept : popped.world.scopes.Guards touched popped.handle.chain := chain ▸ guards
      have same : (popped.withGlobal global).resolve name = popped.resolve name :=
        resolve_withGlobal kept rfl hidden
      rw [dispatch_isNil named before, dispatch_isNil named replaced]
      exact attempt_withGlobal (isNilVariable_withGlobal (.text name) same)

theorem charge?_withGlobal :
    (exec.withGlobal global).charge? =
      exec.charge?.map fun charged => charged.withGlobal global := by
  have same : (exec.withGlobal global).world.settings.instructionBudget =
      exec.world.settings.instructionBudget := rfl
  have counted : (exec.withGlobal global).handle = exec.handle := rfl
  unfold charge?
  rw [same, counted]
  split <;> rfl

theorem stepFrame_withGlobal (tidy : exec.Tidy) (stack : exec.handle.stack = frame :: outer)
    (reads : frame.Reads name) (hidden : isPrivate name = true) :
    (exec.withGlobal global).stepFrame frame =
      ((exec.stepFrame frame).1, (exec.stepFrame frame).2.withGlobal global) := by
  obtain ⟨instruction, moved, fetched, asks⟩ := reads
  have charged : (exec.withGlobal global).charge? = _ := charge?_withGlobal
  cases paid : exec.charge? with
  | none =>
      have unfinished : frame.isExhausted = false := CallFrame.unfinished_of_fetch fetched
      simp only [stepFrame, unfinished, charged, paid, Option.map_none, Bool.false_and,
        Bool.false_eq_true, if_false]
      rfl
  | some after =>
      obtain rfl := charge?_eq_some after paid
      rw [paid] at charged
      have kept : moved.operands = frame.operands := by
        obtain ⟨_, _, same⟩ := Option.map_eq_some_iff.mp fetched
        rw [← (Prod.mk.inj same).2]
      rw [← kept] at asks
      rw [stepFrame_of_fetch fetched paid, stepFrame_of_fetch fetched charged, placed_withGlobal]
      exact dispatch_withGlobal global (tidy.guards_placed stack fetched) (placed_stack stack)
        asks hidden

/-- A step that asks for a private variable is the same step with another global scope. -/
theorem step_withGlobal (tidy : exec.Tidy) (top : exec.handle.top? = some frame)
    (reads : frame.Reads name) (hidden : isPrivate name = true) :
    (exec.withGlobal global).step = (exec.step.1, exec.step.2.withGlobal global) := by
  obtain ⟨outer, stack⟩ := List.head?_eq_some_iff.mp top
  have replaced : (exec.withGlobal global).handle.stack = frame :: outer := stack
  unfold step
  by_cases requested : exec.handle.terminateRequested
  · have again : (exec.withGlobal global).handle.terminateRequested := requested
    rw [if_pos requested, if_pos again, terminate_withGlobal]
  · have again : ¬(exec.withGlobal global).handle.terminateRequested := requested
    rw [if_neg requested, if_neg again, stack, replaced]
    exact stepFrame_withGlobal tidy stack reads hidden

end Global

end Execution

/-- A step of one script, of any reachable machine, leaves every other script as it is, with all its
scopes, but for one that the step ends by `terminate`; and it leaves the private variables of the
global scope as they are.  A private variable has its value from a scope that belongs to the script
at work and to no other, and a step that asks for one goes the same way whatever the global scope
holds. -/
theorem scripts_are_isolated_and_private_variables_stay_private
    (permits : Store → Value → Prop) (exec : Execution) (batch : Option (List HandleId))
    (reached : Situation.Reachable permits (.atWork exec batch))
    (running : exec.handle.state = .running) :
    (∀ after, after = exec.step.2 ∨ after = exec.advance.2 →
      (∀ other ∈ exec.world.scheduler.handles, exec.target? ≠ some other.id →
        after.world.scheduler.get? other.id = some other ∧
        ∀ frame ∈ other.stack, ∃ scope, exec.world.scopes.get? frame.scope = some scope ∧
          after.world.scopes.get? frame.scope = some scope) ∧
      ∀ name, isPrivate name = true →
        after.world.scopes.global.get? name = exec.world.scopes.global.get? name) ∧
    (∀ name value, isPrivate name = true → exec.resolve name = some value →
      ∃ own ∈ exec.handle.stack, own.scope ≠ globalScope ∧
        (∀ other ∈ exec.world.scheduler.handles, ∀ frame ∈ other.stack,
          frame.scope ≠ own.scope) ∧
        ∃ scope, exec.world.scopes.get? own.scope = some scope ∧ scope.get? name = some value) ∧
    (∀ frame name global, exec.handle.top? = some frame → frame.Reads name →
      isPrivate name = true →
      (exec.withGlobal global).step = (exec.step.1, exec.step.2.withGlobal global)) := by
  have tidy : exec.Tidy := reached.tidy
  refine ⟨?_, ?_, ?_⟩
  · intro after made
    have isolated : exec.Isolates after ∧ after.Tidy := by
      rcases made with rfl | rfl
      · exact ⟨Execution.step_isolates tidy, tidy.moves exec.step_proper.moves⟩
      · exact ⟨Execution.advance_isolates tidy, tidy.moves exec.advance_moves⟩
    obtain ⟨isolates, tidied⟩ := isolated
    constructor
    · intro other member spared
      exact isolates.keeps tidy tidied member spared
    · exact isolates.scopes.globals
  · intro name value hidden resolved
    have layered := reached.layered exec.handle List.mem_cons_self (Handle.live_of_running running)
    obtain ⟨frame, outer, stack⟩ := List.exists_cons_of_ne_nil layered.ne_nil
    obtain ⟨own, inside, local_, scope, opened, held⟩ := tidy.resolve_own stack hidden resolved
    refine ⟨own, inside, local_, ?_, scope, opened, held⟩
    intro other member frame theirs
    exact tidy.apart member theirs inside
  · intro frame name global top reads hidden
    exact Execution.step_withGlobal tidy top reads hidden

/-- Two scripts have a variable `_x` each, and so has the global scope.  The script at work reads
its own one; the other script, its scope and the global variable stay as they are. -/
theorem two_scripts_keep_their_own_variable :
    let code : CodeBlock := [⟨.push (.boolean true), Location.host⟩,
      ⟨.assignToLocal "_x", Location.host⟩, ⟨.getVariable "_x", Location.host⟩]
    let world := World.ofSettings {}
    let shared := { world with scopes := world.scopes.setGlobal "_x" .nil }
    let spawned := (shared.spawn code [("_x", .boolean false)] Location.host).2
    let exec := (spawned.startAtOnce code).advance.2.advance.2
    ∃ other frame own scope, exec.world.scheduler.handles = [other] ∧
      exec.handle.top? = some frame ∧ frame.Reads "_x" ∧
      exec.step.2.world.scheduler.get? other.id = some other ∧
      (∀ frame ∈ other.stack, ∃ scope, exec.world.scopes.get? frame.scope = some scope ∧
        exec.step.2.world.scopes.get? frame.scope = some scope) ∧
      exec.step.2.world.scopes.global.get? "_x" = exec.world.scopes.global.get? "_x" ∧
      own ∈ exec.handle.stack ∧ own.scope ≠ globalScope ∧
      exec.world.scopes.get? own.scope = some scope ∧ scope.get? "_x" = some (.boolean true) ∧
      (exec.withGlobal {}).step = (exec.step.1, exec.step.2.withGlobal {}) := by
  intro code world shared spawned exec
  have running : exec.handle.state = .running := by decide +kernel
  have reached : Situation.Reachable (fun _ _ => True) (.atWork exec none) := by
    have hosted : Situation.Reachable (fun _ _ => True) (.idle spawned) :=
      .tend (.tend (.fresh {}) (.setGlobal "_x" trivial))
        (.spawn (fun _ _ => trivial) fun _ _ => trivial)
    have started : Situation.Reachable (fun _ _ => True)
        (.atWork (spawned.startAtOnce code) none) := hosted.execute fun _ _ => trivial
    exact (started.advance (by decide +kernel)).advance (by decide +kernel)
  have kept : exec.world.scheduler.handles.length = 1 := by decide +kernel
  have nobody : exec.target? = none := by decide +kernel
  have hidden : isPrivate "_x" = true := by decide +kernel
  have resolved : exec.resolve "_x" = some (.boolean true) := by rfl
  have reads : ∃ frame, exec.handle.top? = some frame ∧ frame.Reads "_x" :=
    ⟨_, rfl, _, _, rfl, .value _⟩
  clear_value exec
  obtain ⟨other, handles⟩ := List.length_eq_one_iff.mp kept
  obtain ⟨frame, top, reads⟩ := reads
  obtain ⟨isolated, resolves, same⟩ :=
    scripts_are_isolated_and_private_variables_stay_private _ exec none reached running
  obtain ⟨others, globals⟩ := isolated _ (.inl rfl)
  have member : other ∈ exec.world.scheduler.handles := by simp [handles]
  obtain ⟨stays, scopes⟩ := others other member (by simp [nobody])
  obtain ⟨own, inside, local_, _, scope, opened, held⟩ := resolves _ _ hidden resolved
  exact ⟨other, frame, own, scope, handles, top, reads, stays, scopes, globals _ hidden, inside,
    local_, opened, held, same frame "_x" {} top reads hidden⟩

end SimScript

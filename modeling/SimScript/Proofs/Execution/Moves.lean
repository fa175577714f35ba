import Mathlib.Logic.Function.Iterate
import Mathlib.Logic.Relation
import SimScript.Execution.Run
import SimScript.Proofs.Command.Sanction

/-!
# What a step is made of

A step is a sequence of moves, and there are ten kinds of them.  A move uses only
values and code that were at hand when the step began, and its constructor names
everything that may change.  What holds before a step and is kept by each move
therefore holds after the step, without a look at instructions, loops or commands.
-/

namespace SimScript

def Op.constant? : Op → Option Value
  | .push value => some value
  | _ => none

def CodeBlock.constants (code : CodeBlock) : List Value :=
  code.filterMap fun instruction => instruction.op.constant?

def CallFrame.values (frame : CallFrame) : List Value :=
  frame.operands ++ frame.delivered.toList ++ frame.kind.items

def CallFrame.codes (frame : CallFrame) : List CodeBlock :=
  frame.code :: frame.kind.codes

namespace Execution

/-- A value that the handle at work can lay hands on. -/
inductive Knows (exec : Execution) : Value → Prop where
  | plain {value : Value} (plain : value.isPlain = true) : Knows exec value
  | mentioned {value : Value} (mentioned : exec.world.store.Mentions value) : Knows exec value
  | frame {frame : CallFrame} {value : Value} (member : frame ∈ exec.handle.stack)
      (held : value ∈ frame.values) : Knows exec value
  | constant {frame : CallFrame} {value : Value} (member : frame ∈ exec.handle.stack)
      (pushed : value ∈ frame.code.constants) : Knows exec value
  | item {cell : CellId} {value : Value} (member : value ∈ exec.world.store.items cell) :
      Knows exec value
  | bound {id : ScopeId} {scope : Scope} {binding : String × Value}
      (found : exec.world.scopes.get? id = some scope) (member : binding ∈ scope.bindings) :
      Knows exec binding.2

/-- Code that the handle at work can enter. -/
inductive Supplies (exec : Execution) : CodeBlock → Prop where
  | stored {code : CodeBlock} (supplied : exec.world.store.Supplies code) : Supplies exec code
  | loop {frame : CallFrame} {code : CodeBlock} (member : frame ∈ exec.handle.stack)
      (held : code ∈ frame.kind.codes) : Supplies exec code

/-- The next instruction calls the command that creates units in groups. -/
def Recruits (exec : Execution) : Prop :=
  ∃ frame name location, exec.handle.top? = some frame ∧
    frame.code[frame.ip]? = some ⟨.callBinary name, location⟩ ∧
    Text.sameName name "createUnit" = true

end Execution

theorem Handle.isAbsorbed_of_become {handle : Handle} {state : HandleState}
    (live : state.isAbsorbed = false) (absorbed : (handle.become state).isAbsorbed) :
    handle.isAbsorbed := by
  unfold Handle.become at absorbed
  split at absorbed
  · simp [Handle.isAbsorbed, live] at absorbed
  · exact absorbed

theorem Handle.absorbed_of_terminated {handle : Handle} (terminated : handle.state = .terminated) :
    handle.isAbsorbed = true := by
  rw [isAbsorbed, terminated]
  rfl

@[simp] theorem Handle.become_id (handle : Handle) (state : HandleState) :
    (handle.become state).id = handle.id := by
  unfold become
  split <;> rfl

@[simp] theorem Handle.become_stack (handle : Handle) (state : HandleState) :
    (handle.become state).stack = handle.stack := by
  unfold become
  split <;> rfl

@[simp] theorem Handle.become_result (handle : Handle) (state : HandleState) :
    (handle.become state).result = handle.result := by
  unfold become
  split <;> rfl

/-- An object that a change creates is found in the table afterwards. -/
theorem Change.mentions_of_makes {change : Change} {exec : Execution} {value : Value}
    (makes : change.Makes exec value) : (change.perform exec).world.store.Mentions value := by
  cases change with
  | createObject kind data group =>
      refine ⟨_, makes, .registered ?_⟩
      have created : exec.world.store.objects.next kind ∈
          (exec.world.store.objects.create kind data).registry :=
        List.mem_append_right _ (List.mem_singleton_self _)
      cases group with
      | none => exact created
      | some group => exact (ObjectTable.registry_update _ _).symm ▸ created
  | _ => exact makes.elim

/-- The frame goes on with its code, and holds no new values but some at hand. -/
structure CallFrame.Adjusts (holds : Value → Prop) (before after : CallFrame) : Prop where
  scope : after.scope = before.scope
  environment : after.environment = before.environment
  codes : after.codes = before.codes
  waits : after.kind.waits = before.kind.waits
  values : ∀ value ∈ after.values, value ∈ before.values ∨ holds value

/-- The handle keeps its frames and its state. -/
structure Handle.Keeps (holds : Value → Prop) (before after : Handle) : Prop where
  id : after.id = before.id
  stack : after.stack = before.stack
  state : after.state = before.state
  result : after.result = before.result ∨ holds after.result

namespace Execution

/-- A move of a step that began with `start`. -/
inductive Move (start before : Execution) : Execution → Prop where
  /-- Counts, names or notes something about the handle. -/
  | record (handle : Handle) (location : Location)
      (keeps : before.handle.Keeps start.Knows handle) :
      Move start before { before with handle, location }
  /-- Changes the frame on top. -/
  | adjust {frame adjusted : CallFrame} {outer : CallStack}
      (stack : before.handle.stack = frame :: outer)
      (adjusts : frame.Adjusts start.Knows adjusted) :
      Move start before (before.withStack (adjusted :: outer))
  /-- Gives a variable a value. -/
  | bind {id : ScopeId} {name : String} {value : Value} {scopes : Scopes}
      (known : start.Knows value)
      (bound : before.world.scopes.bind id name value = some scopes) :
      Move start before (before.withScopes scopes)
  /-- Carries out the change that a command asks for. -/
  | change (asked : Change)
      (sanctioned : asked.Sanctioned start.Knows start.Supplies start.Recruits before) :
      Move start before (asked.perform before)
  /-- Puts a reply on the operands, which may also name an object that is there by now. -/
  | reply (given : Reply)
      (sanctioned : given.Sanctioned fun value =>
        start.Knows value ∨ before.world.store.Mentions value) :
      Move start before ((Effect.answer .nothing given).perform before)
  /-- Enters a frame on top of another. -/
  | enter {kind : FrameKind} {code : CodeBlock} {environment : Environment}
      {bindings : Bindings} (inside : before.handle.stack ≠ [])
      (enterable :
        kind.Enterable start.Knows start.Supplies before code environment bindings) :
      Move start before (before.enter kind code environment bindings)
  /-- Leaves the frame on top, if there is one. -/
  | leave : Move start before before.leave
  /-- Comes to the end, when no frame is left. -/
  | finish {value : Value} (outside : before.handle.stack = []) (known : start.Knows value) :
      Move start before (before.finish value)
  /-- Is ended, when no frame is left. -/
  | terminate (outside : before.handle.stack = []) :
      Move start before { before with handle := before.handle.become .terminated }
  /-- Waits. -/
  | suspend (wake : WakeCondition) : Move start before (before.suspend wake)
  /-- Hands some events to the log. -/
  | log (events : List Event) : Move start before (before.logged events)

/-- What some moves lead to. -/
def Moves (start after : Execution) : Prop :=
  Relation.ReflTransGen (Move start) start after

variable {start exec after : Execution}

namespace Moves

theorem refl (start : Execution) : start.Moves start :=
  Relation.ReflTransGen.refl

theorem andThen (moves : start.Moves exec) (move : Move start exec after) : start.Moves after :=
  Relation.ReflTransGen.tail moves move

theorem preserves {motive : Execution → Prop} (moves : start.Moves after)
    (first : motive start)
    (each : ∀ before later, motive before → Move start before later → motive later) :
    motive after := by
  induction moves with
  | refl => exact first
  | tail _ move induction => exact each _ _ induction move

end Moves

end Execution

namespace CallFrame.Adjusts

variable {holds : Value → Prop} {frame : CallFrame}

theorem refl (frame : CallFrame) : frame.Adjusts holds frame :=
  ⟨rfl, rfl, rfl, rfl, fun _ member => .inl member⟩

theorem push {value : Value} (known : holds value) : frame.Adjusts holds (frame.push value) := by
  refine ⟨rfl, rfl, rfl, rfl, ?_⟩
  intro other member
  rcases List.mem_cons.mp member with rfl | member
  · exact .inr known
  · exact .inl member

theorem deliver {value : Value} (known : holds value) :
    frame.Adjusts holds { frame with delivered := some value } := by
  refine ⟨rfl, rfl, rfl, rfl, ?_⟩
  intro other member
  simp only [CallFrame.values, Option.toList_some, List.mem_append, List.mem_singleton] at member ⊢
  rcases member with (member | rfl) | member
  · exact .inl (.inl (.inl member))
  · exact .inr known
  · exact .inl (.inr member)

theorem drop {operands : List Value} {ip : Nat} (fewer : operands ⊆ frame.operands) :
    frame.Adjusts holds { frame with operands, ip } := by
  refine ⟨rfl, rfl, rfl, rfl, ?_⟩
  intro other member
  simp only [CallFrame.values, List.mem_append] at member ⊢
  rcases member with (member | member) | member
  · exact .inl (.inl (.inl (fewer member)))
  · exact .inl (.inl (.inr member))
  · exact .inl (.inr member)

theorem pop : frame.Adjusts holds frame.pop.2 := by
  unfold CallFrame.pop
  split
  · exact .refl frame
  case h_2 value rest operands =>
      exact .drop (by simp [operands])

theorem loop {kind : FrameKind} (codes : kind.codes = frame.kind.codes)
    (items : kind.items = frame.kind.items) (waits : kind.waits = frame.kind.waits) :
    frame.Adjusts holds { frame with kind, delivered := none } := by
  refine ⟨rfl, rfl, by simp [CallFrame.codes, codes], waits, ?_⟩
  intro other member
  simp only [CallFrame.values, Option.toList_none, items, List.append_nil,
    List.mem_append] at member ⊢
  rcases member with member | member
  · exact .inl (.inl (.inl member))
  · exact .inl (.inr member)

end CallFrame.Adjusts

namespace Execution

variable {start exec : Execution}

namespace Moves

theorem mapTop {change : CallFrame → CallFrame} (moves : start.Moves exec)
    (adjusts : ∀ frame, exec.handle.top? = some frame →
      frame.Adjusts start.Knows (change frame)) :
    start.Moves (exec.mapTop change) := by
  unfold Execution.mapTop
  split
  · exact moves
  case h_2 frame outer stack =>
      have top : exec.handle.top? = some frame := by simp [Handle.top?, stack]
      exact moves.andThen (.adjust stack (adjusts frame top))

theorem pushOperand {value : Value} (moves : start.Moves exec) (known : start.Knows value) :
    start.Moves (exec.pushOperand value) :=
  moves.mapTop fun _ _ => .push known

theorem deliver {value : Value} (moves : start.Moves exec) (known : start.Knows value) :
    start.Moves (exec.deliver value) := by
  unfold Execution.deliver
  split
  case h_1 stack => exact moves.andThen (.finish stack known)
  case h_2 frame outer stack =>
      split
      · exact moves.andThen (.adjust stack (.deliver known))
      · exact moves.andThen (.adjust stack (.push known))

end Moves

theorem leave_iterate (count : Nat) (exec : Execution) :
    leave^[count] exec =
      (exec.withScopes
        (CallStack.unwind (exec.handle.stack.take count) exec.world.scopes)).withStack
        (exec.handle.stack.drop count) := by
  induction count generalizing exec with
  | zero => rfl
  | succ count induction =>
      rw [Function.iterate_succ_apply, induction]
      cases stack : exec.handle.stack with
      | nil =>
          have same : exec.leave = exec := by simp [leave, stack]
          simp [same, stack, CallStack.unwind]
      | cons frame outer =>
          simp [leave, stack, CallStack.unwind, withScopes, withStack]

theorem leaveTo_eq_iterate (exec : Execution) (depth : Nat) :
    exec.leaveTo depth = leave^[exec.handle.stack.length - depth] exec :=
  (leave_iterate _ exec).symm

theorem terminate_eq_leaveTo (exec : Execution) :
    exec.terminate =
      { exec.leaveTo 0 with handle := (exec.leaveTo 0).handle.become .terminated } := by
  simp [terminate, leaveTo]

@[simp] theorem leaveTo_zero_stack (exec : Execution) :
    (exec.leaveTo 0).handle.stack = [] := by
  simp [leaveTo, withStack]

namespace Moves

theorem leaveMany (moves : start.Moves exec) (count : Nat) :
    start.Moves (Execution.leave^[count] exec) := by
  induction count generalizing exec with
  | zero => exact moves
  | succ count induction =>
      rw [Function.iterate_succ_apply]
      exact induction (moves.andThen .leave)

theorem leaveTo (moves : start.Moves exec) (depth : Nat) :
    start.Moves (exec.leaveTo depth) := by
  rw [leaveTo_eq_iterate]
  exact moves.leaveMany _

theorem terminate (moves : start.Moves exec) : start.Moves exec.terminate := by
  rw [terminate_eq_leaveTo]
  exact (moves.leaveTo 0).andThen (.terminate (leaveTo_zero_stack exec))

theorem leaveLoop (moves : start.Moves exec) : start.Moves exec.leaveLoop :=
  (moves.andThen .leave).deliver (.plain rfl)

theorem perform {effect : Effect} (moves : start.Moves exec) (inside : exec.handle.stack ≠ [])
    (sanctioned : effect.Sanctioned start.Knows start.Supplies start.Recruits exec) :
    start.Moves (effect.perform exec) := by
  cases effect with
  | answer change given =>
      refine (moves.andThen (.change change sanctioned.1)).andThen (.reply given ?_)
      exact sanctioned.2.mono fun value => .imp_right Change.mentions_of_makes
  | enter kind code environment bindings => exact moves.andThen (.enter inside sanctioned)
  | breakOut depth value => exact (moves.leaveTo depth).deliver sanctioned.2
  | suspend wake => exact (moves.pushOperand (.plain rfl)).andThen (.suspend wake)

theorem abandonStatement (moves : start.Moves exec) : start.Moves exec.abandonStatement :=
  (moves.leaveTo _).mapTop fun _ _ => .drop (by simp)

theorem abandonHandle (moves : start.Moves exec) : start.Moves exec.abandonHandle :=
  moves.terminate.andThen
    (.record { exec.terminate.handle with trace := some exec.trace, result := .nil }
      exec.terminate.location ⟨rfl, rfl, rfl, .inr (.plain rfl)⟩)

end Moves

end Execution

end SimScript

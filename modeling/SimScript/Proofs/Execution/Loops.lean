import SimScript.Proofs.Execution.Environment
import SimScript.Proofs.Execution.Exits

/-!
# How loops go on

A loop on top goes on with what it has been handed.  One that tests a condition looks at
what the condition has left, and by then it has been handed something: every way of
leaving a frame hands a value on, and code that has left nothing hands on nil.
-/

namespace SimScript

namespace FrameKind

def condition? : FrameKind → Option CodeBlock
  | .whileLoop condition _ _ | .waitUntil condition _ => some condition
  | .block | .exitWith | .isNil => none
  | .forLoop _ _ _ _ _ _ | .forEach _ _ _ => none

variable {kind : FrameKind} {condition : CodeBlock}

theorem isController_of_awaits (awaits : kind.awaits = true) : kind.isController = true := by
  cases kind <;> first | rfl | simp [FrameKind.awaits] at awaits

theorem isController_of_condition (tests : kind.condition? = some condition) :
    kind.isController = true := by
  cases kind <;> first | rfl | simp [condition?] at tests

end FrameKind

/-- A loop that looks at what its condition has left has been handed something. -/
def CallFrame.Informed (frame : CallFrame) : Prop :=
  frame.kind.awaits = true → ∃ value, frame.delivered = some value

/-- The frame on top, if there is one, is informed. -/
def CallStack.Informed (stack : CallStack) : Prop :=
  ∀ frame outer, stack = frame :: outer → frame.Informed

section Informed

variable {stack outer : CallStack} {frame : CallFrame}

theorem CallFrame.informed_of_begins (begins : frame.kind.awaits = false) : frame.Informed := by
  intro awaits
  simp [begins] at awaits

theorem CallFrame.informed_of_block (block : frame.kind.isController = false) :
    frame.Informed := by
  intro awaits
  simp [FrameKind.isController_of_awaits awaits] at block

theorem CallStack.informed_nil : CallStack.Informed [] := by
  rintro frame outer ⟨⟩

theorem CallStack.informed_cons (informed : frame.Informed) :
    CallStack.Informed (frame :: outer) := by
  rintro _ _ ⟨⟩
  exact informed

/-- Whoever takes a value is informed. -/
theorem CallStack.receive_informed (stack : CallStack) (value : Value) :
    (stack.receive value).Informed := by
  cases stack with
  | nil => exact informed_nil
  | cons frame outer =>
      refine informed_cons ?_
      rw [CallFrame.receive]
      split
      case isTrue => exact fun _ => ⟨value, rfl⟩
      case isFalse block =>
          exact CallFrame.informed_of_block (by simpa [CallFrame.push] using block)

end Informed

namespace Execution

variable {exec middle after failed : Execution} {frame loop : CallFrame} {outer : CallStack}
  {condition : CodeBlock} {value : Value}

/-! ## Steps of loops -/

/-- The next step lets a loop go on that stands on some frames. -/
structure AtLoop (exec : Execution) (loop : CallFrame) (outer : CallStack) : Prop where
  running : exec.handle.state = .running
  proceeds : exec.handle.terminateRequested = false
  paid : exec.charge? = some exec.charged
  layered : exec.handle.stack.Layered
  stack : exec.handle.stack = loop :: outer
  loops : loop.kind.isController = true

theorem AtLoop.step_eq (atLoop : exec.AtLoop loop outer) :
    exec.step = exec.charged.attempt fun exec => exec.stepLoop loop := by
  obtain ⟨_, proceeds, paid, layered, stack, loops⟩ := atLoop
  have codeless : loop.code = [] := (stack ▸ layered).codeless loops
  have empty : loop.fetch? = none := by simp [CallFrame.fetch?, codeless]
  simp only [step, proceeds, Bool.false_eq_true, if_false, stack, stepFrame, loops, Bool.not_true,
    Bool.and_false, paid, empty]

theorem paid_congr {other : Execution} (paid : exec.charge? = some exec.charged)
    (settings : other.world.settings = exec.world.settings)
    (executed : other.handle.executed = exec.handle.executed) :
    other.charge? = some other.charged := by
  unfold charge? at paid ⊢
  split at paid
  case isTrue => cases paid
  case isFalse within =>
      rw [← settings, ← executed] at within
      rw [if_neg within, charged]

theorem enterBlock_stack (stack : exec.handle.stack = loop :: outer) (kind : FrameKind)
    (scopes : Scopes) (code : CodeBlock) :
    ∃ entered, (((exec.setLoop kind).withScopes scopes).enterBlock code).handle.stack =
        entered :: { loop with kind, delivered := none } :: outer ∧
      entered.kind = .block ∧ entered.code = code ∧ entered.ip = 0 ∧ entered.operands = [] := by
  have set : (exec.setLoop kind).handle.stack = _ := setLoop_stack stack
  rw [← set]
  exact ⟨_, rfl, rfl, rfl, rfl, rfl⟩

theorem complete_onto_loop (stack : exec.handle.stack = frame :: loop :: outer)
    (block : frame.kind = .block) (loops : loop.kind.isController = true) :
    exec.complete frame = (exec.withScopes (exec.world.scopes.release frame.scope)).withStack
      ({ loop with delivered := some frame.result } :: outer) := by
  have left : exec.leave =
      (exec.withScopes (exec.world.scopes.release frame.scope)).withStack (loop :: outer) := by
    simp only [leave, stack]
  simp only [complete, block, left, deliver, withStack, loops, if_true]

theorem abandonStatement_of_loop (exec : Execution) (layered : exec.handle.stack.Layered)
    (stack : exec.handle.stack = loop :: outer) (loops : loop.kind.isController = true) :
    ∃ below rest, outer = below :: rest ∧ below.kind.isController = false ∧
      exec.abandonStatement.handle.stack = below.skipStatement :: rest := by
  rw [stack] at layered
  obtain ⟨below, rest, rfl, block⟩ := layered.below_loop loops
  exact ⟨below, rest, rfl, block, abandonStatement_stack (leaveLoops_of_loop stack loops block)⟩

/-! ## Loops that have been handed what they look at -/

theorem deliver_informed (exec : Execution) (value : Value) :
    (exec.deliver value).handle.stack.Informed := by
  rw [deliver_stack]
  exact CallStack.receive_informed _ value

theorem complete_informed (exec : Execution) (frame : CallFrame) :
    (exec.complete frame).handle.stack.Informed := by
  unfold complete
  dsimp only
  split
  · exact deliver_informed _ _
  · split <;> exact deliver_informed _ _
  · exact deliver_informed _ _

theorem terminate_informed (exec : Execution) : exec.terminate.handle.stack.Informed := by
  rw [terminate_stack]
  exact CallStack.informed_nil

theorem Loops.informed (loops : exec.Loops after) (stack : exec.handle.stack = frame :: outer) :
    after.handle.stack.Informed := by
  cases loops with
  | leave => exact deliver_informed _ _
  | @wait kind _ _ begins =>
      have waiting : ((exec.setLoop kind).suspend .nextTurn).handle.stack = _ :=
        (Handle.become_stack _ _).trans (setLoop_stack stack)
      rw [waiting]
      exact CallStack.informed_cons (CallFrame.informed_of_begins begins)
  | enter _ _ =>
      obtain ⟨entered, stack, block, _⟩ := enterBlock_stack stack _ _ _
      rw [stack]
      exact CallStack.informed_cons (CallFrame.informed_of_block (by rw [block]; rfl))

/-- An instruction leaves code on top, or enters a frame that has yet to begin, or hands a value
on. -/
theorem Does.informed {target : Option HandleId} (does : exec.Does target after)
    (stack : exec.handle.stack = frame :: outer) (block : frame.kind.isController = false) :
    after.handle.stack.Informed := by
  have stays : ∀ {operands}, CallStack.Informed ({ frame with operands } :: outer) :=
    CallStack.informed_cons (CallFrame.informed_of_block block)
  have computes : ∀ {later : Execution}, exec.Computes later → later.handle.stack.Informed := by
    intro later computed
    obtain ⟨operands, kept⟩ := computed.stack stack
    rw [kept]
    exact stays
  cases does with
  | compute computed => exact computes computed
  | assign computed name value => exact fun _ _ same => computes computed _ _ same
  | declare computed declared => exact fun _ _ same => computes computed _ _ same
  | @perform middle effect computed sanctioned _ =>
      obtain ⟨operands, kept⟩ := computed.stack stack
      cases effect with
      | answer change reply =>
          obtain ⟨value, answered⟩ := answer_stack change reply kept
          rw [answered]
          exact stays
      | enter kind code environment bindings =>
          exact CallStack.informed_cons (CallFrame.informed_of_begins sanctioned.begins)
      | breakOut depth value => exact deliver_informed _ value
      | suspend wake =>
          have waiting : ((Effect.suspend wake).perform middle).handle.stack = _ :=
            (Handle.become_stack _ _).trans (pushOperand_stack kept)
          rw [waiting]
          exact stays

theorem Fails.informed (fails : exec.Fails failed) (layered : exec.handle.stack.Layered) :
    failed.abandonStatement.handle.stack.Informed := by
  cases fails with
  | loop due paid loops =>
      obtain ⟨outer, stack⟩ := due.stack
      obtain ⟨below, rest, _, block, abandoned⟩ :=
        abandonStatement_of_loop exec.charged layered stack loops
      rw [abandoned]
      exact CallStack.informed_cons (CallFrame.informed_of_block block)
  | dispatch due paid fetched computed =>
      obtain ⟨outer, stack⟩ := due.stack
      rw [stack] at layered
      obtain ⟨block, _⟩ := block_of_fetch layered fetched
      obtain ⟨operands, kept⟩ := computed.stack (placed_stack stack)
      rw [abandonStatement_stack (leaveLoops_of_block kept block)]
      exact CallStack.informed_cons (CallFrame.informed_of_block block)

/-- A loop is never on top again without something to look at. -/
theorem advance_informed (layered : exec.handle.stack.Layered) :
    exec.advance.2.handle.stack.Informed := by
  obtain ⟨after, advances, same⟩ := exec.advance_cases
  rw [same]
  cases advances with
  | terminate requested => exact terminate_informed exec
  | finish outside => exact absurd outside layered.ne_nil
  | complete top exhausted block => exact complete_informed exec _
  | refuse due unpaid => exact terminate_informed exec
  | loop due paid loops done =>
      obtain ⟨outer, stack⟩ := due.stack
      exact done.informed stack
  | dispatch due paid fetched done =>
      obtain ⟨outer, stack⟩ := due.stack
      rw [stack] at layered
      exact done.informed (placed_stack stack) (block_of_fetch layered fetched).1
  | giveUpStatement given fails => exact fails.informed layered
  | @giveUpHandle failed fails => exact terminate_informed failed

/-! ## Conditions -/

theorem loopCondition_of_boolean (label : String) (truth : value.type = .boolean) :
    ∃ holds, loopCondition label (some value) = pure holds := by
  cases value with
  | boolean holds => exact ⟨holds, rfl⟩
  | object ref => cases kind : ref.kind <;> simp [Value.type, kind, ObjectKind.valueType] at truth
  | _ => cases truth

theorem loopCondition_of_other (label : String) (other : value.type ≠ .boolean)
    (site : Site) :
    loopCondition label (some value) site =
      ⟨.error .statement, [⟨Fault.typeMismatch [.boolean] value.type .strong, site.location⟩]⟩ := by
  cases value with
  | boolean holds => exact absurd rfl other
  | _ => rfl

/-- A loop that looks at something decides by it how to go on. -/
theorem stepLoop_of_awaits (exec : Execution) (awaits : loop.kind.awaits = true) :
    ∃ goesOn : Bool → Execution, exec.stepLoop loop =
      loopCondition loop.kind.label loop.delivered >>= fun holds => pure (goesOn holds) := by
  unfold stepLoop
  split
  case h_1 condition body phase kind =>
      obtain rfl : phase = .condition := by simpa [kind, FrameKind.awaits] using awaits
      refine ⟨fun holds => if holds then
        (exec.setLoop (.whileLoop condition body .body)).enterBlock body else exec.leaveLoop, ?_⟩
      rw [kind]
      refine congrArg (loopCondition "while" loop.delivered >>= ·) (funext fun holds => ?_)
      cases holds <;> rfl
  case h_4 condition phase kind =>
      obtain rfl : phase = .condition := by simpa [kind, FrameKind.awaits] using awaits
      refine ⟨fun holds => if holds then exec.leaveLoop else
        (exec.setLoop (.waitUntil condition .start)).suspend .nextTurn, ?_⟩
      rw [kind]
      refine congrArg (loopCondition "waitUntil" loop.delivered >>= ·) (funext fun holds => ?_)
      cases holds <;> rfl
  all_goals simp_all [FrameKind.awaits]

theorem stepLoop_of_begins (exec : Execution) (tests : loop.kind.condition? = some condition)
    (begins : loop.kind.awaits = false) :
    ∃ kind : FrameKind, kind.condition? = some condition ∧ kind.awaits = true ∧
      exec.stepLoop loop = pure ((exec.setLoop kind).enterBlock condition) := by
  unfold stepLoop
  split
  case h_1 condition body phase kind =>
      obtain rfl : condition = _ := by simpa [kind, FrameKind.condition?] using tests
      refine ⟨.whileLoop condition body .condition, rfl, rfl, ?_⟩
      cases phase with
      | condition => simp [kind, FrameKind.awaits] at begins
      | start | body => rfl
  case h_4 condition phase kind =>
      obtain rfl : condition = _ := by simpa [kind, FrameKind.condition?] using tests
      refine ⟨.waitUntil condition .condition, rfl, rfl, ?_⟩
      cases phase with
      | condition => simp [kind, FrameKind.awaits] at begins
      | start | body => rfl
  all_goals simp_all [FrameKind.condition?]

theorem AtLoop.enters_condition (atLoop : exec.AtLoop loop outer)
    (tests : loop.kind.condition? = some condition) (begins : loop.kind.awaits = false) :
    exec.advance.1 = [] ∧ ∃ block asking,
      exec.advance.2.handle.stack = block :: asking :: outer ∧ block.kind = .block ∧
      block.code = condition ∧ block.ip = 0 ∧ block.operands = [] ∧
      asking.kind.condition? = some condition ∧ asking.kind.awaits = true := by
  obtain ⟨kind, testing, awaits, enters⟩ := stepLoop_of_begins exec.charged tests begins
  have made : exec.step =
      (⟨.ok (), []⟩, (exec.charged.setLoop kind).enterBlock condition) := by
    rw [atLoop.step_eq, attempt, enters]
    rfl
  rw [advance_of_silent made]
  have charged : exec.charged.handle.stack = loop :: outer := atLoop.stack
  obtain ⟨block, entered, isBlock, code, ip, operands⟩ :=
    enterBlock_stack charged kind (exec.charged.setLoop kind).world.scopes condition
  exact ⟨rfl, block, _, entered, isBlock, code, ip, operands, testing, awaits⟩

/-- What a loop on some frames does with what its condition has left: there is nothing wrong with a
truth value; anything else is a mismatch, for which the loop is left and the statement given up. -/
structure Judges (exec : Execution) (outer : CallStack) (value : Value) : Prop where
  accepts : value.type = .boolean → exec.step.1 = ⟨.ok (), []⟩
  rejects : value.type ≠ .boolean →
    exec.step.1 = ⟨.error .statement,
      [⟨Fault.typeMismatch [.boolean] value.type .strong, exec.location⟩]⟩ ∧
    exec.advance.1 = exec.step.1.events ∧ exec.advance.2.handle.state = .running ∧
    ∃ below rest, outer = below :: rest ∧ below.kind.isController = false ∧
      exec.advance.2.handle.stack = below.skipStatement :: rest

theorem AtLoop.judges (atLoop : exec.AtLoop loop outer) (awaits : loop.kind.awaits = true)
    (handed : loop.delivered = some value) : exec.Judges outer value := by
  have made : exec.step = _ := atLoop.step_eq
  obtain ⟨goesOn, decides⟩ := stepLoop_of_awaits exec.charged awaits
  rw [handed] at decides
  simp only [attempt, decides] at made
  constructor
  · intro truth
    obtain ⟨holds, same⟩ := loopCondition_of_boolean loop.kind.label truth
    rw [made, same]
    rfl
  · intro other
    have fault := loopCondition_of_other loop.kind.label other exec.charged.site
    have failed : exec.step = (⟨.error .statement,
        [⟨Fault.typeMismatch [.boolean] value.type .strong, exec.location⟩]⟩, exec.charged) := by
      rw [made, Report.bind_of_error (congrArg Checked.result fault), fault]
      rfl
    obtain ⟨below, rest, whole, block, abandoned⟩ :=
      abandonStatement_of_loop exec.charged atLoop.layered atLoop.stack atLoop.loops
    have given : exec.step.1.result = .error .statement := by rw [failed]
    rw [advance_of_statement given, failed]
    exact ⟨rfl, rfl, (abandonStatement_state _).trans atLoop.running, below, rest, whole, block,
      abandoned⟩

end Execution

end SimScript

import SimScript.Execution.Basic
import SimScript.Report

/-!
# Loops

A loop is a frame that enters its condition and its body in turn, and looks at what
they leave.  Each function here says how a loop goes on when it is on top again.
-/

namespace SimScript

def loopCondition (label : String) : Option Value → Report Bool
  | some (.boolean holds) => pure holds
  | some other => Report.recover (Fault.typeMismatch [.boolean] other.type .strong) false
  | none => Report.recover (Fault.callstackFoundNoValue label .strong) false

namespace Execution

/-- Leaves a loop, which has the value nil. -/
def leaveLoop (exec : Execution) : Execution :=
  exec.leave.deliver .nil

/-- Changes the kind of the loop on top, and forgets what was delivered to it. -/
def setLoop (exec : Execution) (kind : FrameKind) : Execution :=
  exec.mapTop fun frame => { frame with kind, delivered := none }

def stepWhile (exec : Execution) (condition body : CodeBlock) (phase : LoopPhase)
    (delivered : Option Value) : Report Execution := do
  match phase with
  | .start | .body =>
      return (exec.setLoop (.whileLoop condition body .condition)).enterBlock condition
  | .condition =>
      if ← loopCondition "while" delivered then
        return (exec.setLoop (.whileLoop condition body .body)).enterBlock body
      else
        return exec.leaveLoop

/-- Whether a loop reaches its end from a number by steps of this sign. -/
def reaches (step current stop : Float) : Bool :=
  (step > 0 && current ≤ stop) || (step < 0 && current ≥ stop)

/-- Whether a loop that has begun goes on with a number. -/
def continues (step current stop : Float) : Bool :=
  if step > 0 then current ≤ stop else current ≥ stop

def enterFor (exec : Execution) (variableName : String) (current stop step : Float)
    (body : CodeBlock) : Report Execution :=
  match exec.world.scopes.declare exec.scope variableName (.scalar current) with
  | .error error =>
      Report.recover (Fault.errorMessage variableName error.message) exec
  | .ok scopes =>
      pure (((exec.setLoop (.forLoop variableName current stop step body .body)).withScopes
        scopes).enterBlock body)

/-- Goes on with a `for` loop.  The body may have given the variable another number, and the next
step is made from there. -/
def stepFor (exec : Execution) (variableName : String) (current stop step : Float)
    (body : CodeBlock) (phase : LoopPhase) : Report Execution := do
  if phase = .start then
    if reaches step current stop then
      exec.enterFor variableName current stop step body
    else
      Report.note (Fault.forStepNoWorkShouldBeDone step current stop)
      return exec.leaveLoop
  else
    match (exec.world.scopes.get? exec.scope).bind fun scope => scope.get? variableName with
    | some (.scalar held) =>
        if held + step == held then
          Report.note (Fault.forStepNoWorkShouldBeDone step held stop)
          return exec.leaveLoop
        else if continues step (held + step) stop then
          exec.enterFor variableName (held + step) stop step body
        else
          return exec.leaveLoop
    | other =>
        Report.note (Fault.forStepVariableTypeMismatch variableName .scalar
          ((other.map Value.type).getD .nil))
        return exec.leaveLoop

def stepForEach (exec : Execution) (items : List Value) (index : Nat) (body : CodeBlock) :
    Report Execution :=
  match items[index]? with
  | none => pure exec.leaveLoop
  | some item =>
      let declared := do
        let scopes ← exec.world.scopes.declare exec.scope "_x" item
        scopes.declare exec.scope "_forEachIndex" (.ofCount index)
      match declared with
      | .error error => Report.recover (Fault.errorMessage "_x" error.message) exec
      | .ok scopes =>
          pure (((exec.setLoop (.forEach items (index + 1) body)).withScopes scopes).enterBlock
            body)

/-- Goes on with a `waitUntil` loop, which looks at its condition once a turn. -/
def stepWaitUntil (exec : Execution) (condition : CodeBlock) (phase : LoopPhase)
    (delivered : Option Value) : Report Execution := do
  match phase with
  | .start | .body =>
      return (exec.setLoop (.waitUntil condition .condition)).enterBlock condition
  | .condition =>
      if ← loopCondition "waitUntil" delivered then
        return exec.leaveLoop
      else
        return (exec.setLoop (.waitUntil condition .start)).suspend .nextTurn

def stepLoop (exec : Execution) (frame : CallFrame) : Report Execution :=
  match frame.kind with
  | .whileLoop condition body phase => exec.stepWhile condition body phase frame.delivered
  | .forLoop variableName current stop step body phase =>
      exec.stepFor variableName current stop step body phase
  | .forEach items index body => exec.stepForEach items index body
  | .waitUntil condition phase => exec.stepWaitUntil condition phase frame.delivered
  | .block | .exitWith | .isNil => pure exec

end Execution

end SimScript

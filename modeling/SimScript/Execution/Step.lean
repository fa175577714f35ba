import SimScript.Command.Table
import SimScript.Execution.Loop

/-!
# Single steps

A step dispatches one instruction, or lets the loop on top go on, or leaves a frame
that has come to its end.  The first two are charged to the instruction budget.
-/

namespace SimScript

/-- What work came to, and the execution it left. -/
abbrev Outcome := Checked Unit × Execution

namespace Execution

/-- Carries out work that leaves the execution as it is where it aborts. -/
def attempt (exec : Execution) (work : Execution → Report Execution) : Outcome :=
  let checked := work exec exec.site
  match checked.result with
  | .ok after => (⟨.ok (), checked.events⟩, after)
  | .error abort => (⟨.error abort, checked.events⟩, exec)

/-- Carries out a command.  One that aborts is left where it stands. -/
def carryOut (exec : Execution) (command : Command) : Outcome :=
  let (checked, after) := command exec.site exec
  match checked.result with
  | .ok answer => (⟨.ok (), checked.events⟩, after.respond answer)
  | .error abort => (⟨.error abort, checked.events⟩, after)

/-- Raises a message in place of a command; where it does not abort, the reply is nil. -/
def refuse (exec : Execution) (message : Message) : Outcome :=
  exec.attempt fun exec => Report.recover message (exec.pushOperand .nil)

def popOperand (exec : Execution) : Option Value × Execution :=
  match exec.handle.top? with
  | none => (none, exec)
  | some frame => (frame.pop.1, exec.mapTop fun frame => frame.pop.2)

def callNular (exec : Execution) (name : String) : Outcome :=
  match Command.nular? name with
  | some command => exec.carryOut command.body
  | none => exec.attempt fun exec => Report.recover (AssemblyMessage.unknownNularOperator name) exec

def callUnary (exec : Execution) (name : String) (right : Value) : Outcome :=
  match Command.unariesOf name with
  | [] => exec.refuse (AssemblyMessage.unknownUnaryOperator name)
  | signatures =>
      match Command.unaryFor? signatures right.type with
      | some command => exec.carryOut (command.body right)
      | none =>
          exec.refuse (Fault.typeMismatch (signatures.map Unary.right) right.type .strong)

def callBinary (exec : Execution) (name : String) (left right : Value) : Outcome :=
  match Command.binariesOf name with
  | [] => exec.refuse (AssemblyMessage.unknownBinaryOperator name)
  | signatures =>
      match Command.binaryFor? signatures left.type right.type with
      | some command => exec.carryOut (command.body left right)
      | none =>
          exec.refuse (Fault.unknownInputTypeCombinationBinary name (some left.type) right.type)

/-- Takes an operand to assign; where there is none, that is reported and nil is assigned. -/
def popAssigned (exec : Execution) : Report (Value × Execution) :=
  match exec.popOperand with
  | (some value, after) => pure (value, after)
  | (none, _) =>
      let label := (exec.handle.top?.map fun frame => frame.kind.label).getD ""
      Report.recover (Fault.callstackFoundNoValue label .weak) (.nil, exec)

def readVariable (name : String) (exec : Execution) : Report Execution :=
  match exec.resolve name with
  | some value => pure (exec.pushOperand value)
  | none => Report.recover (Fault.variableNotFound name) (exec.pushOperand .nil)

def assignVariable (name : String) (exec : Execution) : Report Execution := do
  let (value, exec) ← exec.popAssigned
  return exec.withScopes (exec.world.scopes.assign (some exec.scope) name value true).2

def assignLocal (name : String) (exec : Execution) : Report Execution := do
  let (value, exec) ← exec.popAssigned
  match exec.world.scopes.declare exec.scope name value with
  | .ok scopes => return exec.withScopes scopes
  | .error error => Report.recover (Fault.errorMessage name error.message) exec

def makeArray (count : Nat) (exec : Execution) : Report Execution :=
  match exec.handle.top?.bind fun frame => frame.popMany? count with
  | some (items, frame) =>
      let (value, store) := exec.world.store.newArray items.toArray
      pure (((exec.withStore store).mapTop fun _ => frame).pushOperand value)
  | none =>
      let found := (exec.handle.top?.map fun frame => frame.operands.length).getD 0
      Report.recover (Fault.stackCorruptionMissingValues count found) exec

def dispatch (exec : Execution) : Op → Outcome
  | .push value => (⟨.ok (), []⟩, exec.give (.copy value))
  | .endStatement => (⟨.ok (), []⟩, exec.mapTop CallFrame.clearOperands)
  | .getVariable name => exec.attempt (readVariable name)
  | .assignTo name => exec.attempt (assignVariable name)
  | .assignToLocal name => exec.attempt (assignLocal name)
  | .makeArray count => exec.attempt (makeArray count)
  | .callNular name => exec.callNular name
  | .callUnary name =>
      match exec.popOperand with
      | (some right, after) => after.callUnary name right
      | (none, _) =>
          let missing := exec.attempt fun exec =>
            Report.recover (Fault.noValueFoundForRightArgument name .weak) exec
          let (called, after) := exec.callUnary name .nil
          (⟨called.result, missing.1.events ++ called.events⟩, after)
  | .callBinary name =>
      match exec.popOperand with
      | (none, _) =>
          exec.attempt fun exec =>
            Report.recover (Fault.noValueFoundForRightArgument name .strong) exec
      | (some right, one) =>
          match one.popOperand with
          | (none, _) =>
              one.attempt fun exec =>
                Report.recover (Fault.noValueFoundForLeftArgument name .strong) exec
          | (some left, two) => two.callBinary name left right

/-- Counts one unit of work, unless the budget is used up. -/
def charge? (exec : Execution) : Option Execution :=
  if exec.world.settings.instructionBudget.any fun budget => budget ≤ exec.handle.executed then
    none
  else some { exec with handle := { exec.handle with executed := exec.handle.executed + 1 } }

/-- Leaves a block that has come to its end, and hands on what it has left.  Code after `exitWith`
leaves the block that issued it too, and the loop around that. -/
def complete (exec : Execution) (frame : CallFrame) : Execution :=
  let left := exec.leave
  match frame.kind with
  | .isNil => left.deliver (.boolean frame.result.isNil)
  | .exitWith =>
      let outside := left.leave
      if outside.handle.top?.any fun frame => frame.kind.isLoop then
        outside.leave.deliver frame.result
      else outside.deliver frame.result
  | _ => left.deliver frame.result

def stepFrame (exec : Execution) (frame : CallFrame) : Outcome :=
  if frame.isExhausted && !frame.kind.isController then
    (⟨.ok (), []⟩, exec.complete frame)
  else
    match exec.charge? with
    | none =>
        let budget := exec.world.settings.instructionBudget.getD 0
        (⟨.error .handle, [⟨Fault.maximumInstructionCountReached budget, exec.location⟩]⟩, exec)
    | some charged =>
        match frame.fetch? with
        | none => charged.attempt fun exec => exec.stepLoop frame
        | some (instruction, moved) =>
            { charged.mapTop fun _ => moved with location := instruction.location }.dispatch
              instruction.op

def step (exec : Execution) : Outcome :=
  if exec.handle.terminateRequested then (⟨.ok (), []⟩, exec.terminate)
  else
    match exec.handle.stack with
    | [] => (⟨.ok (), []⟩, exec.finish .nil)
    | frame :: _ => exec.stepFrame frame

end Execution

end SimScript

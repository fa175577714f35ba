import SimScript.Execution.Step

/-!
# Runs

A handle runs step by step until it yields.  What a step gives up is dealt with
here: the rest of the statement is skipped, or the handle is ended with a trace.
-/

namespace SimScript.Execution

def leaveLoops (exec : Execution) : Execution :=
  let leaving := exec.handle.stack.takeWhile fun frame => frame.kind.isController
  exec.leaveTo (exec.handle.stack.length - leaving.length)

/-- Gives up the current statement: the loops on top are left, and the block below them goes on with
its next statement. -/
def abandonStatement (exec : Execution) : Execution :=
  exec.leaveLoops.mapTop CallFrame.skipStatement

def trace (exec : Execution) : StackTrace :=
  exec.handle.stack.trace exec.world.scopes

/-- Gives up the handle, which keeps a trace of its frames. -/
def abandonHandle (exec : Execution) : Execution :=
  let ended := exec.terminate
  { ended with handle := { ended.handle with trace := some exec.trace, result := .nil } }

/-- Makes a step and deals with what it gives up.  The events are those of the step and, for a
handle given up, the trace. -/
def settle (exec : Execution) : List Event × Execution :=
  let (checked, after) := exec.step
  match checked.result with
  | .ok _ => (checked.events, after)
  | .error .statement => (checked.events, after.abandonStatement)
  | .error .handle =>
      (checked.events ++ [⟨Fault.stacktrace after.trace.text, after.location⟩],
        after.abandonHandle)

/-- Makes a step, deals with what it gives up, and hands its events to the log. -/
def advance (exec : Execution) : List Event × Execution :=
  let (events, after) := exec.settle
  (events, after.logged events)

/-- Runs until the handle yields, and adds the events to those before.  There is no answer where
`fuel` steps are not enough. -/
def run : (fuel : Nat) → Array Event → Execution → Option (Array Event × Execution)
  | 0, _, _ => none
  | fuel + 1, before, exec =>
      if exec.handle.state = .running then
        let (events, after) := exec.advance
        run fuel (before ++ events) after
      else some (before, exec)

end SimScript.Execution

import SimScript.Command.Basic

/-!
# Scripts that handle scripts

Starting, suspending and ending scripts.
-/

namespace SimScript.Command

def handleOf? : Value → Option HandleId
  | .script id => id
  | _ => none

def checkSuspension (exec : Execution) : Report Unit :=
  if !exec.world.settings.allowSuspension then Report.raise Fault.suspensionDisabled
  else if exec.environment = .unscheduled then
    Report.raise Fault.suspensionInUnscheduledEnvironment
  else pure ()

/-- Starts a script that sees the left operand as `_this`. -/
def spawn (left right : Value) : Command := do
  let exec ← get
  let code := exec.world.store.codeOf right
  let (id, world) := exec.world.spawn code [("_this", left)] exec.location
  modify fun exec => { exec with world }
  return .value (.script (some id))

def sleep (right : Value) : Command := do
  checkSuspension (← get)
  return .suspend (.at ((← get).world.now + Scalar.larger right.number 0))

/-- Waits until a condition holds, which is looked at once a turn. -/
def waitUntil (right : Value) : Command := do
  checkSuspension (← get)
  let _ ← enter (.waitUntil ((← get).world.store.codeOf right) .start) []
  return .deferred

/-- Ends a script.  The script itself goes on to the end of the instruction. -/
def terminate (right : Value) : Command := do
  let exec ← get
  match handleOf? right with
  | none => return .nil
  | some id =>
      if id = exec.handle.id then
        modify fun exec => { exec with handle := { exec.handle with terminateRequested := true } }
        return .nil
      else
        match exec.world.stateOf? id with
        | none =>
            Report.raise (Fault.errorMessage "terminate" s!"unknown script handle {id}")
            return .nil
        | some state =>
            match state.endNotice? with
            | some notice =>
                Report.note notice
                return .nil
            | none =>
                modify fun exec => { exec with world := exec.world.terminate id }
                return .nil

/-- Whether a script has come to its end; one that is not kept any more has. -/
def isDone (exec : Execution) (right : Value) : Bool :=
  match handleOf? right with
  | none => true
  | some id =>
      if id = exec.handle.id then false
      else (exec.world.stateOf? id).all HandleState.isAbsorbed

def nameScript (right : Value) : Command := do
  match (← get).handle.name with
  | some _ =>
      Report.raise Fault.scriptNameAlreadySet
      return .nil
  | none =>
      modify fun exec => { exec with handle := { exec.handle with name := some right.content } }
      return .nil

def script : CommandSet where
  nulars :=
    [nular "canSuspend" fun exec => reply (.boolean exec.canSuspend),
      nular "scriptNull" fun _ => reply (.script none),
      nular "time" fun exec => reply (.scalar exec.world.now)]
  unaries :=
    [⟨"sleep", .scalar, sleep⟩,
      ⟨"uiSleep", .scalar, sleep⟩,
      ⟨"waitUntil", .code, waitUntil⟩,
      ⟨"terminate", .script, terminate⟩,
      unary "scriptDone" .script fun right exec => reply (.boolean (isDone exec right)),
      ⟨"scriptName", .string, nameScript⟩]
  binaries := [⟨"spawn", .any, .code, spawn⟩]

end SimScript.Command

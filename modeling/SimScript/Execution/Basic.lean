import SimScript.World

/-!
# Executions

One handle at work in the world.  The handle is not among those that the scheduler
keeps until it yields.
-/

namespace SimScript

/-- A handle at work, and where its current instruction stands. -/
structure Execution where
  world : World
  handle : Handle
  location : Location

namespace Execution

def resume (world : World) (handle : Handle) : Execution :=
  { world
    handle
    location := (handle.top?.map CallFrame.location).getD Location.host }

def site (exec : Execution) : Site :=
  ⟨exec.location, exec.world.logger⟩

def scope (exec : Execution) : ScopeId :=
  (exec.handle.top?.map fun frame => frame.scope).getD globalScope

def environment (exec : Execution) : Environment :=
  (exec.handle.top?.map fun frame => frame.environment).getD .scheduled

def resolve (exec : Execution) (name : String) : Option Value :=
  exec.world.scopes.resolve (some exec.scope) name

def canSuspend (exec : Execution) : Bool :=
  exec.world.settings.allowSuspension && exec.environment = .scheduled

def withStack (exec : Execution) (stack : CallStack) : Execution :=
  { exec with handle := { exec.handle with stack } }

def withScopes (exec : Execution) (scopes : Scopes) : Execution :=
  { exec with world := { exec.world with scopes } }

def withStore (exec : Execution) (store : Store) : Execution :=
  { exec with world := { exec.world with store } }

def logged (exec : Execution) (events : List Event) : Execution :=
  { exec with world := { exec.world with logger := exec.world.logger.emitAll events.toArray } }

def mapTop (exec : Execution) (change : CallFrame → CallFrame) : Execution :=
  match exec.handle.stack with
  | [] => exec
  | frame :: outer => exec.withStack (change frame :: outer)

def pushOperand (exec : Execution) (value : Value) : Execution :=
  exec.mapTop fun frame => frame.push value

/-- Enters a frame whose new scope is a child of the current one. -/
def enter (exec : Execution) (kind : FrameKind) (code : CodeBlock) (environment : Environment)
    (bindings : Bindings) : Execution :=
  let (scope, scopes) := exec.world.scopes.push (some exec.scope) bindings
  (exec.withScopes scopes).withStack
    ({ kind, code, scope, environment, origin := exec.location } :: exec.handle.stack)

def enterBlock (exec : Execution) (code : CodeBlock) : Execution :=
  exec.enter .block code exec.environment []

def leave (exec : Execution) : Execution :=
  match exec.handle.stack with
  | [] => exec
  | frame :: outer =>
      (exec.withScopes (exec.world.scopes.release frame.scope)).withStack outer

/-- Leaves frames until `depth` of them remain. -/
def leaveTo (exec : Execution) (depth : Nat) : Execution :=
  let leaving := exec.handle.stack.length - depth
  (exec.withScopes (CallStack.unwind (exec.handle.stack.take leaving) exec.world.scopes)).withStack
    (exec.handle.stack.drop leaving)

def finish (exec : Execution) (value : Value) : Execution :=
  { exec with handle := { exec.handle with result := value }.become .finished }

/-- Hands on what a frame has left: to the loop or the block that entered it, or, where no frame
remains, as the result of the handle. -/
def deliver (exec : Execution) (value : Value) : Execution :=
  match exec.handle.stack with
  | [] => exec.finish value
  | frame :: outer =>
      if frame.kind.isController then
        exec.withStack ({ frame with delivered := some value } :: outer)
      else exec.withStack (frame.push value :: outer)

def suspend (exec : Execution) (wake : WakeCondition) : Execution :=
  { exec with handle := { exec.handle with wake := some wake }.become .suspended }

def terminate (exec : Execution) : Execution :=
  let unwound := (exec.withScopes (exec.handle.stack.unwind exec.world.scopes)).withStack []
  { unwound with handle := unwound.handle.become .terminated }

end Execution

end SimScript

import SimScript.Call.Frame

/-!
# Call stacks

The frames of one script, the innermost first.  Each frame owns the scope that it
was entered with, and gives it back when it leaves.
-/

namespace SimScript

/-- Frames, the innermost first. -/
abbrev CallStack := List CallFrame

structure TraceEntry where
  depth : Nat
  kind : String
  scopeName : Option String
  location : String
  deriving DecidableEq

abbrev StackTrace := List TraceEntry

def TraceEntry.text (entry : TraceEntry) : String :=
  s!"#{entry.depth} {entry.kind} " ++ entry.scopeName.getD "<anonymous>"
    ++ s!" at {entry.location}\n"

def StackTrace.text (trace : StackTrace) : String :=
  String.join (trace.map TraceEntry.text)

/-- What can be told about a frame from outside. -/
structure FrameSnapshot where
  kind : String
  ip : Nat
  instructions : Nat
  operands : Nat
  scope : ScopeId
  environment : Environment
  location : String
  deriving DecidableEq

namespace CallStack

/-- Closes the scopes of all frames. -/
def unwind (stack : CallStack) (scopes : Scopes) : Scopes :=
  stack.foldl (fun scopes frame => scopes.release frame.scope) scopes

/-- The depth, counted from the outermost frame, of the innermost frame whose scope has a name. -/
def findNamed? (stack : CallStack) (scopes : Scopes) (name : String) : Option Nat :=
  match stack with
  | [] => none
  | frame :: outer =>
      if scopes.name? frame.scope = some name then some outer.length
      else CallStack.findNamed? outer scopes name

def trace (stack : CallStack) (scopes : Scopes) : StackTrace :=
  match stack with
  | [] => []
  | frame :: outer =>
      { depth := outer.length
        kind := frame.kind.label
        scopeName := scopes.name? frame.scope
        location := frame.location.render } :: CallStack.trace outer scopes

def snapshot (stack : CallStack) : List FrameSnapshot :=
  stack.reverse.map fun frame =>
    { kind := frame.kind.label
      ip := frame.ip
      instructions := frame.code.length
      operands := frame.operands.length
      scope := frame.scope
      environment := frame.environment
      location := frame.location.render }

end CallStack

end SimScript

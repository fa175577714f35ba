import SimScript.Call.Stack

/-!
# Script handles

A handle is one script on its way from creation to its end.  Finished and
terminated handles are absorbed: they never change state again.
-/

namespace SimScript

/-- How far a script has come. -/
inductive HandleState where
  | created
  | running
  | suspended
  | finished
  | terminated
  deriving DecidableEq, Inhabited

namespace HandleState

def all : List HandleState := [.created, .running, .suspended, .finished, .terminated]

/-- Whether a state is never left. -/
def isAbsorbed : HandleState → Bool
  | .finished | .terminated => true
  | .created | .running | .suspended => false

def canBecome : HandleState → HandleState → Bool
  | .created, .running => true
  | .running, .suspended => true
  | .suspended, .running => true
  | from_, .finished | from_, .terminated => !from_.isAbsorbed
  | _, _ => false

def name : HandleState → String
  | .created => "CREATED"
  | .running => "RUNNING"
  | .suspended => "SUSPENDED"
  | .finished => "FINISHED"
  | .terminated => "TERMINATED"

end HandleState

inductive WakeCondition where
  /-- Once the clock has reached a time. -/
  | at (time : Float)
  /-- In the next turn. -/
  | nextTurn

/-- A script: its frames, what it waits for, how much it has done, and what it came to. -/
structure Handle where
  id : HandleId
  name : Option String := none
  state : HandleState := .created
  stack : CallStack
  wake : Option WakeCondition := none
  terminateRequested : Bool := false
  executed : Nat := 0
  result : Value := .nil
  trace : Option StackTrace := none
  deriving Inhabited

namespace Handle

def isAbsorbed (handle : Handle) : Bool :=
  handle.state.isAbsorbed

/-- Goes over to a state where that is possible, and stays otherwise. -/
def become (handle : Handle) (state : HandleState) : Handle :=
  if handle.state.canBecome state then { handle with state } else handle

def isReady (handle : Handle) (now : Float) : Bool :=
  match handle.state with
  | .created | .running => true
  | .finished | .terminated => false
  | .suspended =>
      match handle.wake with
      | some (.at time) => now ≥ time
      | some .nextTurn | none => true

def top? (handle : Handle) : Option CallFrame :=
  handle.stack.head?

end Handle

end SimScript

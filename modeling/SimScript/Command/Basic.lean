import SimScript.Check
import SimScript.Execution.Answer
import SimScript.Work

/-!
# Commands

A command has a name, which is compared without regard to case, and the types of
its operands.  A name may have several signatures; the first one whose types accept
the operands is used.
-/

namespace SimScript

/-- What a command does: it checks and changes the execution in some order, and answers. -/
abbrev Command := Work Execution Command.Answer

/-- A look at the execution, which changes nothing but what the reply needs. -/
abbrev Query := Execution → Report Reply

structure Nular where
  name : String
  body : Command

structure Unary where
  name : String
  right : ValueType
  body : (right : Value) → Command

structure Binary where
  name : String
  left : ValueType
  right : ValueType
  body : (left right : Value) → Command

/-- Commands, in the order in which their signatures are tried. -/
structure CommandSet where
  nulars : List Nular := []
  unaries : List Unary := []
  binaries : List Binary := []

namespace Command

/-! ## Queries -/

def ask (query : Query) : Command := do
  return .reply (← query (← get))

def nular (name : String) (query : Query) : Nular :=
  ⟨name, ask query⟩

def unary (name : String) (right : ValueType) (query : Value → Query) : Unary :=
  ⟨name, right, fun operand => ask (query operand)⟩

def binary (name : String) (left right : ValueType) (query : Value → Value → Query) : Binary :=
  ⟨name, left, right, fun l r => ask (query l r)⟩

def reply (value : Value) : Report Reply :=
  pure (.value value)

def replyArray (items : List Value) : Report Reply :=
  pure (.array items)

def nothing : Report Reply :=
  reply .nil

/-- Raises a fault; where it does not abort, replies a value. -/
def failWith (fault : Fault) (value : Value) : Report Reply := do
  Report.raise fault
  reply value

def fail (fault : Fault) : Report Reply :=
  failWith fault .nil

/-! ## Changes -/

def changeStore (change : Store → Store) : Work Execution Unit :=
  modify fun exec => exec.withStore (change exec.world.store)

def rewrite (cell : CellId) (change : Array Value → Array Value) : Work Execution Unit :=
  changeStore fun store => store.write cell (change (store.items cell))

def changeObjects (change : ObjectTable → ObjectTable) : Work Execution Unit :=
  changeStore fun store => store.withObjects change

def declare (scope : ScopeId) (name : String) (value : Value) : Work Execution Unit := do
  match (← get).world.scopes.declare scope name value with
  | .ok scopes => modify fun exec => exec.withScopes scopes
  | .error error => Report.raise (Fault.errorMessage name error.message)

/-- Enters a frame, in the current environment unless another one is given, and tells its scope. -/
def enter (kind : FrameKind) (code : CodeBlock) (environment : Option Environment := none) :
    Work Execution ScopeId := do
  modify fun exec => exec.enter kind code (environment.getD exec.environment) []
  return (← get).scope

/-! ## Operands -/

/-- The argument at a place, and nil where there is none. -/
def argument (args : List Value) (place : Nat) : Value :=
  (args[place]?).getD .nil

def countOrMinusOne (position : Option Nat) : Value :=
  match position with
  | some position => .ofCount position
  | none => .scalar (-1)

end Command

end SimScript

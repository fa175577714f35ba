import SimScript.Code.Instruction
import SimScript.Scope

/-!
# Call frames

A frame holds what it takes to go on with a piece of code: the next instruction,
the operands, the scope.  The frame of a loop has no code of its own; it enters
blocks and receives what they leave.
-/

namespace SimScript

/-- Whether code may suspend; code that is called inherits it. -/
inductive Environment where
  | scheduled
  | unscheduled
  deriving DecidableEq, Inhabited

inductive LoopPhase where
  | start
  | condition
  | body
  deriving DecidableEq, Inhabited

inductive FrameKind where
  /-- A block of code. -/
  | block
  /-- Code after which the frame that issued `exitWith` is left. -/
  | exitWith
  /-- Code of which only matters whether it leaves nil. -/
  | isNil
  | whileLoop (condition body : CodeBlock) (phase : LoopPhase)
  | forLoop (variableName : String) (current stop step : Float) (body : CodeBlock)
      (phase : LoopPhase)
  | forEach (items : List Value) (index : Nat) (body : CodeBlock)
  | waitUntil (condition : CodeBlock) (phase : LoopPhase)
  deriving Inhabited

namespace FrameKind

def label : FrameKind → String
  | .block => "block"
  | .exitWith => "exitWith"
  | .isNil => "isNil"
  | .whileLoop _ _ _ => "while"
  | .forLoop _ _ _ _ _ _ => "for"
  | .forEach _ _ _ => "forEach"
  | .waitUntil _ _ => "waitUntil"

/-- Whether a frame has no code of its own and enters blocks instead. -/
def isController : FrameKind → Bool
  | .block | .exitWith | .isNil => false
  | .whileLoop _ _ _ | .forLoop _ _ _ _ _ _ | .forEach _ _ _ | .waitUntil _ _ => true

/-- Whether a frame is a loop that `exitWith` leaves together with its body. -/
def isLoop : FrameKind → Bool
  | .whileLoop _ _ _ | .forLoop _ _ _ _ _ _ | .forEach _ _ _ => true
  | .block | .exitWith | .isNil | .waitUntil _ _ => false

end FrameKind

/-- A frame: the code, the index of the next instruction, the operands with the last one first, and
the scope that the frame owns. -/
structure CallFrame where
  kind : FrameKind
  code : CodeBlock := []
  ip : Nat := 0
  operands : List Value := []
  scope : ScopeId
  environment : Environment
  /-- Where the frame was entered. -/
  origin : Location
  /-- What the block that a controller entered has left. -/
  delivered : Option Value := none
  deriving Inhabited

namespace CallFrame

def isExhausted (frame : CallFrame) : Bool :=
  frame.code.length ≤ frame.ip

def fetch? (frame : CallFrame) : Option (Instruction × CallFrame) :=
  frame.code[frame.ip]?.map fun instruction => (instruction, { frame with ip := frame.ip + 1 })

/-- The instruction dispatched last. -/
def current? (frame : CallFrame) : Option Instruction :=
  match frame.ip with
  | 0 => none
  | last + 1 => frame.code[last]?

/-- Where the instruction dispatched last stands, or where the frame was entered. -/
def location (frame : CallFrame) : Location :=
  match frame.current? with
  | some instruction => instruction.location
  | none => frame.origin

def push (frame : CallFrame) (value : Value) : CallFrame :=
  { frame with operands := value :: frame.operands }

def pop (frame : CallFrame) : Option Value × CallFrame :=
  match frame.operands with
  | [] => (none, frame)
  | value :: rest => (some value, { frame with operands := rest })

/-- Takes the topmost operands, in the order in which they were pushed. -/
def popMany? (frame : CallFrame) (count : Nat) : Option (List Value × CallFrame) :=
  if frame.operands.length < count then none
  else
    some ((frame.operands.take count).reverse,
      { frame with operands := frame.operands.drop count })

def clearOperands (frame : CallFrame) : CallFrame :=
  { frame with operands := [] }

/-- Drops the operands and the rest of the current statement. -/
def skipStatement (frame : CallFrame) : CallFrame :=
  { frame with operands := [], ip := frame.code.statementEnd frame.ip }

/-- What the code has left: the topmost operand, or nil. -/
def result (frame : CallFrame) : Value :=
  frame.pop.1.getD .nil

end CallFrame

end SimScript

import SimScript.Diagnostics.Location
import SimScript.Value.Basic

/-!
# Code

Code is a list of instructions in postfix order: operands first, then the
operator.  `CodeBuilder` puts a location on each instruction as it is added.
-/

namespace SimScript

inductive Op where
  | push (value : Value)
  | getVariable (name : String)
  | assignTo (name : String)
  | assignToLocal (name : String)
  | makeArray (count : Nat)
  | callNular (operator : String)
  | callUnary (operator : String)
  | callBinary (operator : String)
  | endStatement
  deriving Inhabited

def Op.endsStatement : Op → Bool
  | .endStatement => true
  | _ => false

structure Instruction where
  op : Op
  location : Location
  deriving Inhabited

abbrev CodeBlock := List Instruction

/-- The index just after the first end of a statement at or after `start`; where there is none, the
length of the code. -/
def CodeBlock.statementEnd (code : CodeBlock) (start : Nat) : Nat :=
  match (code.drop start).findIdx? fun instruction => instruction.op.endsStatement with
  | some offset => start + offset + 1
  | none => code.length

/-- Code under construction: where the next instruction stands, and the instructions so far, the
last one first. -/
structure CodeBuilder where
  path : String
  line : Nat := 1
  column : Nat := 0
  added : List Instruction := []

namespace CodeBuilder

def moveTo (builder : CodeBuilder) (line column : Nat) : CodeBuilder :=
  { builder with line, column }

/-- Adds an instruction at the current place and moves one column on; the end of a statement moves
to the next line. -/
def add (builder : CodeBuilder) (op : Op) : CodeBuilder :=
  let added := ⟨op, ⟨builder.path, builder.line, builder.column⟩⟩ :: builder.added
  if op.endsStatement then { builder with added, line := builder.line + 1, column := 0 }
  else { builder with added, column := builder.column + 1 }

def build (builder : CodeBuilder) : CodeBlock :=
  builder.added.reverse

end CodeBuilder

end SimScript

import SimScript.Command.Array
import SimScript.Command.Config
import SimScript.Command.Crew
import SimScript.Command.Extension
import SimScript.Command.Flow
import SimScript.Command.Format
import SimScript.Command.Math
import SimScript.Command.Network
import SimScript.Command.Object
import SimScript.Command.Script

/-!
# The table of commands

All commands under their names in small letters.  The signatures of one name stand
in the order in which they are tried.
-/

namespace SimScript.Command

def all : List CommandSet :=
  [math, formatting, array, flow, script, object, crews, config, extension, network]

def nularTable : List (String × Nular) :=
  (all.flatMap CommandSet.nulars).map fun command => (Text.lower command.name, command)

def unaryTable : List (String × Unary) :=
  (all.flatMap CommandSet.unaries).map fun command => (Text.lower command.name, command)

def binaryTable : List (String × Binary) :=
  (all.flatMap CommandSet.binaries).map fun command => (Text.lower command.name, command)

def named {α : Type} (table : List (String × α)) (name : String) : List α :=
  let key := Text.lower name
  (table.filter fun entry => entry.1 == key).map Prod.snd

def nular? (name : String) : Option Nular :=
  (named nularTable name).head?

def unariesOf (name : String) : List Unary :=
  named unaryTable name

def binariesOf (name : String) : List Binary :=
  named binaryTable name

def isCommand (name : String) : Bool :=
  (nular? name).isSome || !(unariesOf name).isEmpty || !(binariesOf name).isEmpty

/-- The first signature that accepts an operand. -/
def unaryFor? (signatures : List Unary) (right : ValueType) : Option Unary :=
  signatures.find? fun signature => signature.right.accepts right

def binaryFor? (signatures : List Binary) (left right : ValueType) : Option Binary :=
  signatures.find? fun signature =>
    signature.left.accepts left && signature.right.accepts right

end SimScript.Command

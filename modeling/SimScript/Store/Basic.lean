import SimScript.Code.Instruction
import SimScript.Object.Table

/-!
# The store

What values name: array cells, code blocks and objects.  Cells and blocks are
numbered in order of creation; a cell can be overwritten, a block cannot.
-/

namespace SimScript

/-- The cells, blocks and objects that values refer to. -/
structure Store where
  cells : Array (Array Value) := #[]
  blocks : Array CodeBlock := #[]
  objects : ObjectTable := {}
  deriving Inhabited

namespace Store

def items (store : Store) (cell : CellId) : Array Value :=
  store.cells[cell]?.getD #[]

def write (store : Store) (cell : CellId) (items : Array Value) : Store :=
  { store with cells := store.cells.setIfInBounds cell items }

def newArray (store : Store) (items : Array Value) : Value × Store :=
  (.array store.cells.size, { store with cells := store.cells.push items })

/-- The elements of an array value, and none for any other value. -/
def itemsOf (store : Store) (value : Value) : List Value :=
  match value with
  | .array cell => (store.items cell).toList
  | _ => []

def block (store : Store) (id : BlockId) : CodeBlock :=
  store.blocks[id]?.getD []

def codeOf (store : Store) (value : Value) : CodeBlock :=
  match value with
  | .code id | .whilePart id => store.block id
  | _ => []

def newBlock (store : Store) (code : CodeBlock) : BlockId × Store :=
  (store.blocks.size, { store with blocks := store.blocks.push code })

def withObjects (store : Store) (change : ObjectTable → ObjectTable) : Store :=
  { store with objects := change store.objects }

/-- How deep arrays may nest before some cell has to occur twice on one path. -/
def depthBound (store : Store) : Nat :=
  store.cells.size + 1

end Store

end SimScript

/-!
# Where a diagnostic arose

A location names a source text, a line and a column.  Several things that a
compiler hands on know one; a diagnostic only keeps the location.
-/

namespace SimScript

structure Location where
  path : String := ""
  line : Nat := 0
  column : Nat := 0
  deriving DecidableEq, Inhabited

namespace Location

/-- The location of what the host does, rather than a script. -/
def host : Location := ⟨"<host>", 0, 0⟩

/-- The text of a location: `[path][L1|C2]`. -/
def render (location : Location) : String :=
  s!"[{location.path}][L{location.line}|C{location.column}]"

end Location

/-- How far the preprocessor has come in one file. -/
structure FileCursor where
  path : String
  line : Nat
  column : Nat
  offset : Nat

structure SyntaxNode where
  kind : String
  path : String
  line : Nat
  column : Nat
  offset : Nat
  length : Nat

/-- A position that the preprocessor left in its output. -/
structure PositionMarker where
  path : String
  line : Nat
  column : Nat

def FileCursor.location (cursor : FileCursor) : Location :=
  ⟨cursor.path, cursor.line, cursor.column⟩

def SyntaxNode.location (node : SyntaxNode) : Location :=
  ⟨node.path, node.line, node.column⟩

def PositionMarker.location (marker : PositionMarker) : Location :=
  ⟨marker.path, marker.line, marker.column⟩

end SimScript

/-!
# References into the config tree

A reference is a path of names from the root, or null.  It holds no part of the
tree, so it stays meaningful when the host replaces the tree.
-/

namespace SimScript

/-- A path into the config tree; without a path it is the null reference. -/
structure ConfigRef where
  path : Option (List String)
  deriving DecidableEq, Inhabited

namespace ConfigRef

def null : ConfigRef := ⟨none⟩

def root : ConfigRef := ⟨some []⟩

def ofPath (path : List String) : ConfigRef := ⟨some path⟩

def isNull (ref : ConfigRef) : Bool :=
  ref.path.isNone

/-- Goes down by one name; null stays null. -/
def child (ref : ConfigRef) (name : String) : ConfigRef :=
  ⟨ref.path.map fun path => path ++ [name]⟩

/-- The last name of the path; the root and null have the empty one. -/
def name (ref : ConfigRef) : String :=
  ((ref.path.getD []).getLast?).getD ""

def render (ref : ConfigRef) : String :=
  match ref.path with
  | none => "<NULL-config>"
  | some path => String.intercalate "/" ("bin\\config.bin" :: path)

end ConfigRef

end SimScript

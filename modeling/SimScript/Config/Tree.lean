import SimScript.Report
import SimScript.Text.Ascii

/-!
# The config tree

Classes hold named entries, which are values or classes.  Names are compared
without regard to case and keep the spelling of their first mention.  A class may
name another class of the same container as its parent; only the question what a
class is a kind of follows that link.
-/

namespace SimScript

inductive ConfigValue where
  | number (value : Float)
  | text (content : String)
  | array (items : List ConfigValue)
  deriving Inhabited

/-- An entry: a value, or a class with the name of its parent and its own entries. -/
inductive ConfigEntry where
  | value (held : ConfigValue)
  | classOf (parent : Option String) (entries : List (String × ConfigEntry))
  deriving Inhabited

/-- A class: the name of its parent, and its entries in order of declaration. -/
structure ConfigClass where
  parent : Option String := none
  entries : List (String × ConfigEntry) := []
  deriving Inhabited

namespace ConfigEntry

def asClass? : ConfigEntry → Option ConfigClass
  | .classOf parent entries => some ⟨parent, entries⟩
  | .value _ => none

def asValue? : ConfigEntry → Option ConfigValue
  | .value held => some held
  | .classOf _ _ => none

end ConfigEntry

namespace ConfigClass

def toEntry (container : ConfigClass) : ConfigEntry :=
  .classOf container.parent container.entries

/-- The entry of a name, with the spelling it was declared with. -/
def find? (container : ConfigClass) (name : String) : Option (String × ConfigEntry) :=
  container.entries.find? fun entry => Text.sameName entry.1 name

def get? (container : ConfigClass) (name : String) : Option ConfigEntry :=
  (container.find? name).map Prod.snd

def keyOf? (container : ConfigClass) (name : String) : Option String :=
  (container.find? name).map Prod.fst

/-- Adds an entry at the end, or replaces the one of that name in its place. -/
def insertInto (name : String) (entry : ConfigEntry) :
    List (String × ConfigEntry) → List (String × ConfigEntry)
  | [] => [(name, entry)]
  | (key, held) :: rest =>
      if Text.sameName key name then (key, entry) :: rest
      else (key, held) :: insertInto name entry rest

def insert (container : ConfigClass) (name : String) (entry : ConfigEntry) : ConfigClass :=
  { container with entries := insertInto name entry container.entries }

def class? (container : ConfigClass) (name : String) : Option ConfigClass :=
  (container.get? name).bind ConfigEntry.asClass?

def lookup? (container : ConfigClass) : List String → Option ConfigEntry
  | [] => some container.toEntry
  | [name] => container.get? name
  | name :: rest =>
      match container.class? name with
      | some next => next.lookup? rest
      | none => none

/-- Follows a path of names down from a class in one walk.  Where it leads nowhere, the answer is
the names that it has passed and the one that failed. -/
def walk (container : ConfigClass) (passed : List String) :
    List String → Except (List String × String) ConfigEntry
  | [] => .ok container.toEntry
  | name :: rest =>
      match container.get? name, rest with
      | some (.classOf parent entries), _ :: _ =>
          ConfigClass.walk ⟨parent, entries⟩ (passed ++ [name]) rest
      | some entry, [] => .ok entry
      | _, _ => .error (passed, name)

/-- Each name of a path in the spelling it was declared with, where the path leads somewhere. -/
def canonical? (container : ConfigClass) : List String → Option (List String)
  | [] => some []
  | [name] => (container.keyOf? name).map fun key => [key]
  | name :: rest =>
      match container.keyOf? name, container.class? name with
      | some key, some next => (next.canonical? rest).map fun keys => key :: keys
      | _, _ => none

/-- Whether `base` is among the first `steps` names on the chain of parents from the class
`current`, which goes by `name`.  A parent that is no class of the container ends the chain. -/
def hasAncestor (container : ConfigClass) (base : String) :
    (steps : Nat) → (current : ConfigClass) → (name : String) → Bool
  | 0, _, _ => false
  | steps + 1, current, name =>
      if Text.sameName name base then true
      else
        match current.parent with
        | none => false
        | some parent =>
            match container.class? parent with
            | some next => container.hasAncestor base steps next parent
            | none => Text.sameName parent base

end ConfigClass

structure ConfigTree where
  root : ConfigClass := {}
  deriving Inhabited

namespace ConfigTree

/-- The entry at a path; the empty path leads to the root. -/
def lookup? (tree : ConfigTree) (path : List String) : Option ConfigEntry :=
  tree.root.lookup? path

/-- The entry at a path; where there is none, the first name that fails is reported. -/
def lookupChecked (tree : ConfigTree) (path : List String) (strength : Strength) :
    Report (Option ConfigEntry) :=
  match tree.root.walk [] path with
  | .error (passed, name) =>
      Report.recover (Fault.configEntryNotFound passed name strength) none
  | .ok entry => pure (some entry)

def canonical? (tree : ConfigTree) (path : List String) : Option (List String) :=
  tree.root.canonical? path

/-- Whether a class of a container is `base` or descends from it; no answer where there is no such
container or class.  A chain of parents that does not return to itself passes each class of the
container at most once. -/
def isKindOf? (tree : ConfigTree) (path : List String) (className base : String) : Option Bool := do
  let entry ← tree.lookup? path
  let container ← entry.asClass?
  let current ← container.class? className
  let name ← container.keyOf? className
  return container.hasAncestor base (container.entries.length + 1) current name

end ConfigTree

end SimScript

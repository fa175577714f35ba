import SimScript.Value.Basic

/-!
# Scopes

Variables live in scopes.  Scope 0 is the global one, which all scripts share; the
others are local, are opened and closed as code runs, and form chains through
their parents.  A name that begins with an underscore is private: it is looked up
along the chain of local scopes only.
-/

namespace SimScript

abbrev ScopeId := Nat

def globalScope : ScopeId := 0

def isPrivate (name : String) : Bool :=
  name.toList.head? == some '_'

/-- Variables and their values, each name once. -/
abbrev Bindings := List (String × Value)

/-- Gives a variable a value, in place if it has one. -/
def Bindings.insert (name : String) (value : Value) : Bindings → Bindings
  | [] => [(name, value)]
  | (other, held) :: rest =>
      if other = name then (name, value) :: rest
      else (other, held) :: Bindings.insert name value rest

/-- The variables of one scope, its name, and where look-ups go on. -/
structure Scope where
  parent : Option ScopeId := none
  name : Option String := none
  bindings : Bindings := []
  deriving Inhabited

def Scope.get? (scope : Scope) (name : String) : Option Value :=
  scope.bindings.lookup name

inductive ScopeError where
  | unknownScope (id : ScopeId)
  | nameAlreadySet (name : String)
  | globalScope
  deriving DecidableEq

def ScopeError.message : ScopeError → String
  | .unknownScope id => s!"scope frame {id} does not exist"
  | .nameAlreadySet name => s!"scope name already set to '{name}'"
  | .globalScope => "the global frame cannot be released"

theorem no_slot_free : ∀ slot ∈ ([] : List Nat), slot < (#[] : Array (Option Scope)).size :=
  nofun

/-- All scopes.  The local scope `n + 1` is in slot `n`; a closed scope leaves its slot empty, and
the slot closed last is used again first. -/
structure Scopes where
  global : Scope := {}
  locals : Array (Option Scope) := #[]
  free : List Nat := []
  /-- The free list names slots that are there. -/
  inside : ∀ slot ∈ free, slot < locals.size := by exact no_slot_free

instance : Inhabited Scopes := ⟨{}⟩

namespace Scopes

def get? (scopes : Scopes) : ScopeId → Option Scope
  | 0 => some scopes.global
  | slot + 1 => (scopes.locals[slot]?).join

theorem slot_lt_size (scopes : Scopes) {slot : Nat} {scope : Scope}
    (found : scopes.get? (slot + 1) = some scope) : slot < scopes.locals.size := by
  refine Nat.lt_of_not_le fun outside => ?_
  simp [get?, Array.getElem?_eq_none outside] at found

def set (scopes : Scopes) (id : ScopeId) (scope : Scope) : Scopes :=
  match id with
  | 0 => { scopes with global := scope }
  | slot + 1 =>
      { scopes with
        locals := scopes.locals.setIfInBounds slot (some scope)
        inside := by simpa using scopes.inside }

/-- Opens a local scope with some variables.  The global scope as a parent counts as none. -/
def push (scopes : Scopes) (parent : Option ScopeId) (bindings : Bindings := []) :
    ScopeId × Scopes :=
  let scope : Scope := { parent := parent.filter fun id => id != globalScope, bindings }
  match reused : scopes.free with
  | slot :: free =>
      (slot + 1,
        { scopes with
          locals := scopes.locals.setIfInBounds slot (some scope)
          free
          inside := fun other member => by
            simpa using scopes.inside other (by simp [reused, member]) })
  | [] =>
      (scopes.locals.size + 1,
        { scopes with
          locals := scopes.locals.push (some scope)
          free := []
          inside := nofun })

def pop (scopes : Scopes) (id : ScopeId) : Except ScopeError Scopes :=
  match id with
  | 0 => .error .globalScope
  | slot + 1 =>
      match found : scopes.get? (slot + 1) with
      | none => .error (.unknownScope (slot + 1))
      | some _ =>
          .ok { scopes with
            locals := scopes.locals.setIfInBounds slot none
            free := slot :: scopes.free
            inside := by simpa using ⟨scopes.slot_lt_size found, scopes.inside⟩ }

/-- Closes a local scope, or leaves everything as it is where there is none to close. -/
def release (scopes : Scopes) (id : ScopeId) : Scopes :=
  match scopes.pop id with
  | .ok released => released
  | .error _ => scopes

def liveCount (scopes : Scopes) : Nat :=
  scopes.locals.toList.countP Option.isSome

/-- The first scope on the chain from `head` that holds a variable, within `steps` scopes.  The
chain ends at a closed scope. -/
def holderWithin (scopes : Scopes) (name : String) : (steps : Nat) → Option ScopeId → Option ScopeId
  | 0, _ => none
  | _ + 1, none => none
  | steps + 1, some id =>
      match scopes.get? id with
      | none => none
      | some scope =>
          if (scope.get? name).isSome then some id
          else scopes.holderWithin name steps scope.parent

/-- The first scope on the chain from `head` that holds a variable.  A chain that does not return to
itself passes each slot at most once. -/
def holder (scopes : Scopes) (head : Option ScopeId) (name : String) : Option ScopeId :=
  scopes.holderWithin name (scopes.locals.size + 2) head

/-- The value of a variable as seen from `head`: along the chain first, and then, unless it is
private, in the global scope. -/
def resolve (scopes : Scopes) (head : Option ScopeId) (name : String) : Option Value :=
  match scopes.holder head name with
  | some id => (scopes.get? id).bind fun scope => scope.get? name
  | none => if isPrivate name then none else scopes.global.get? name

/-- Gives a variable a value in one scope, if that scope is open. -/
def bind (scopes : Scopes) (id : ScopeId) (name : String) (value : Value) : Option Scopes :=
  (scopes.get? id).map fun scope =>
    scopes.set id { scope with bindings := scope.bindings.insert name value }

/-- Where an assignment from `head` goes: to the scope on the chain that holds the variable; failing
that, a public variable goes to the global scope where that is allowed, and any other to `head`. -/
def assignTarget (scopes : Scopes) (head : Option ScopeId) (name : String) (allowGlobal : Bool) :
    Option ScopeId :=
  match scopes.holder head name with
  | some id => some id
  | none => if !isPrivate name && allowGlobal then some globalScope else head

/-- Assigns a variable from `head`, and tells which scope took the value. -/
def assign (scopes : Scopes) (head : Option ScopeId) (name : String) (value : Value)
    (allowGlobal : Bool) : Option ScopeId × Scopes :=
  match scopes.assignTarget head name allowGlobal with
  | none => (none, scopes)
  | some target =>
      match scopes.bind target name value with
      | none => (none, scopes)
      | some assigned => (some target, assigned)

/-- Gives a variable a value in one scope, without regard to the chain. -/
def declare (scopes : Scopes) (id : ScopeId) (name : String) (value : Value) :
    Except ScopeError Scopes :=
  match scopes.bind id name value with
  | some declared => .ok declared
  | none => .error (.unknownScope id)

def setGlobal (scopes : Scopes) (name : String) (value : Value) : Scopes :=
  { scopes with
    global := { scopes.global with bindings := scopes.global.bindings.insert name value } }

def setName (scopes : Scopes) (id : ScopeId) (name : String) : Except ScopeError Scopes :=
  match scopes.get? id with
  | none => .error (.unknownScope id)
  | some scope =>
      match scope.name with
      | some existing => .error (.nameAlreadySet existing)
      | none => .ok (scopes.set id { scope with name := some name })

def name? (scopes : Scopes) (id : ScopeId) : Option String :=
  (scopes.get? id).bind fun scope => scope.name

end Scopes

end SimScript

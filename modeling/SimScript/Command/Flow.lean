import SimScript.Command.Basic
import SimScript.Store.Render

/-!
# Control flow

Conditionals, loops and calls are put together from values: `if` makes a value that
`then` takes, `for` one that `from`, `to`, `step` and `do` take.  Blocks and loops
become frames, and their value arrives when the frame is left.
-/

namespace SimScript.Command

def holds : Value → Bool
  | .ifPart condition => condition
  | _ => false

def enterCode (kind : FrameKind) (code : Value) : Command := do
  let _ ← enter kind ((← get).world.store.codeOf code)
  return .deferred

/-- Enters code in which a value is known as `_this`. -/
def enterWith (this code : Value) : Command := do
  let scope ← enter .block ((← get).world.store.codeOf code)
  declare scope "_this" this
  return .deferred

def enterIsNil (code : Value) : Command := do
  let _ ← enter .isNil ((← get).world.store.codeOf code) Environment.unscheduled
  return .deferred

def enterLoop (kind : FrameKind) : Command := do
  let _ ← enter kind []
  return .deferred

def whenHolds (kind : FrameKind) (left right : Value) : Command := do
  if holds left then enterCode kind right else return .nil

def thenBranches (left right : Value) : Command := do
  let branches := (← get).world.store.itemsOf right
  if !(← Check.size branches 2 .strong) then
    return .nil
  else if !(← Check.types branches [.code, .code] .strong) then
    return .nil
  else
    enterCode .block (argument branches (if holds left then 0 else 1))

def forPart (set : ForSpec → Float → ForSpec) (left right : Value) : Query := fun _ =>
  match left with
  | .forPart spec =>
      match right.asScalar? with
      | some number => reply (.forPart (set spec number))
      | none => do
          Report.note
            (Fault.forStepVariableTypeMismatch spec.variableName .scalar right.type)
          nothing
  | _ => nothing

def forDo (left right : Value) : Command := do
  match left with
  | .forPart spec =>
      enterLoop (.forLoop spec.variableName spec.start spec.stop spec.step
        ((← get).world.store.codeOf right) .start)
  | _ => return .nil

/-- Enters a loop over the elements that an array has now. -/
def forEach (left right : Value) : Command := do
  let store := (← get).world.store
  enterLoop (.forEach (store.itemsOf right) 0 (store.codeOf left))

def whileDo (left right : Value) : Command := do
  let store := (← get).world.store
  enterLoop (.whileLoop (store.codeOf left) (store.codeOf right) .start)

def declareName (right : Value) : Command := do
  declare (← get).scope right.content .nil
  return .nil

def declareItems (right : Value) : Command := do
  let exec ← get
  let names := exec.world.store.itemsOf right
  if ← Check.allOf names .string .strong then
    names.forM fun name => declare exec.scope name.content .nil
    return .nil
  else
    return .nil

def nameScope (right : Value) : Command := do
  let exec ← get
  match exec.world.scopes.setName exec.scope right.content with
  | .ok scopes =>
      modify fun exec => exec.withScopes scopes
      return .nil
  | .error _ =>
      Report.raise Fault.scopeNameAlreadySet
      return .nil

/-- Leaves the innermost scope of a name, and hands a value to what called it. -/
def breakOut (value : Value) (name : String) : Command := do
  let exec ← get
  match exec.handle.stack.findNamed? exec.world.scopes name with
  | some depth =>
      modify fun exec => exec.leaveTo depth
      modify fun exec => exec.deliver value
      return .deferred
  | none =>
      Report.raise (Fault.errorMessage "breakOut" s!"no scope named '{name}'")
      return .nil

/-- Whether a variable is missing or nil. -/
def isNilVariable (right : Value) : Query := fun exec =>
  reply (.boolean ((exec.resolve right.content).all Value.isNil))

def assert (right : Value) : Query := fun _ =>
  if right.flag then reply right else failWith .assertFailed right

/-- Writes the display form of a value to the log. -/
def logValue (right : Value) : Query := fun exec => do
  Report.note (Fault.infoMessage "diag_log" (exec.world.store.display right))
  nothing

def flow : CommandSet where
  nulars :=
    [nular "nil" fun _ => nothing,
      nular "true" fun _ => reply (.boolean true),
      nular "false" fun _ => reply (.boolean false)]
  unaries :=
    [unary "if" .boolean fun right _ => reply (.ifPart right.flag),
      unary "while" .code fun right _ =>
        match right with
        | .code block => reply (.whilePart block)
        | _ => nothing,
      unary "for" .string fun right _ => reply (.forPart ⟨right.content, 0, 0, 1⟩),
      ⟨"call", .code, enterCode .block⟩,
      unary "isNil" .string isNilVariable,
      ⟨"isNil", .code, enterIsNil⟩,
      ⟨"private", .string, declareName⟩,
      ⟨"private", .array, declareItems⟩,
      ⟨"scopeName", .string, nameScope⟩,
      ⟨"breakOut", .string, fun right => breakOut .nil right.content⟩,
      unary "assert" .boolean assert,
      unary "diag_log" .any logValue]
  binaries :=
    [⟨"then", .ifPart, .code, whenHolds .block⟩,
      ⟨"then", .ifPart, .array, thenBranches⟩,
      binary "else" .code .code fun left right _ => replyArray [left, right],
      ⟨"exitWith", .ifPart, .code, whenHolds .exitWith⟩,
      ⟨"do", .whilePart, .code, whileDo⟩,
      binary "from" .forPart .any (forPart fun spec start => { spec with start }),
      binary "to" .forPart .any (forPart fun spec stop => { spec with stop }),
      binary "step" .forPart .any (forPart fun spec step => { spec with step }),
      ⟨"do", .forPart, .code, forDo⟩,
      ⟨"forEach", .code, .array, forEach⟩,
      ⟨"call", .any, .code, enterWith⟩,
      ⟨"breakOut", .any, .string, fun left right => breakOut left right.content⟩]

end SimScript.Command

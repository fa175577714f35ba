import SimScript.Command.Flow
import SimScript.Command.Script
import SimScript.Proofs.Plan.Arrays

/-!
# Plans of the commands that steer scripts

A frame is entered, or frames are left, after all checks.  Names are declared one by one,
and each declaration might fail, but only for want of the scope; so either the first one
fails, or none does.
-/

namespace SimScript

namespace Scopes

variable {scopes : Scopes} {id : ScopeId}

theorem declare_push (scopes : Scopes) (parent : Option ScopeId) (name : String) (value : Value) :
    (scopes.push parent []).2.declare (scopes.push parent []).1 name value =
      .ok (scopes.push parent [(name, value)]).2 := by
  unfold push
  dsimp only
  split
  case h_1 slot free reused =>
    have inside : slot < scopes.locals.size := scopes.inside slot (by simp [reused])
    simp [declare, bind, get?, set, inside, Bindings.insert]
  case h_2 => simp [declare, bind, get?, set, Bindings.insert, Array.setIfInBounds, Array.set_push]

theorem push_fst (scopes : Scopes) (parent : Option ScopeId) (bindings : Bindings) :
    (scopes.push parent bindings).1 = (scopes.push parent []).1 := by
  unfold push
  dsimp only
  split <;> rfl

theorem exists_bind (isOpen : (scopes.get? id).isSome) (name : String) (value : Value) :
    ∃ bound, scopes.bind id name value = some bound ∧ (bound.get? id).isSome := by
  obtain ⟨scope, found⟩ := Option.isSome_iff_exists.mp isOpen
  refine ⟨_, by rw [bind, found, Option.map_some], ?_⟩
  cases id with
  | zero => rfl
  | succ slot => simp [get?, set, scopes.slot_lt_size found]

end Scopes

namespace Plan

open Command (holds argument checkSuspension handleOf?)

def enterCode (kind : FrameKind) (code : Value) (bindings : Bindings) : Plan := fun exec =>
  pure (.enter kind (exec.world.store.codeOf code) exec.environment bindings)

def enterIsNil (code : Value) : Plan := fun exec =>
  pure (.enter .isNil (exec.world.store.codeOf code) .unscheduled [])

def enterLoop (kind : FrameKind) : Plan := fun exec =>
  pure (.enter kind [] exec.environment [])

def whenHolds (kind : FrameKind) (left right : Value) : Plan := fun exec =>
  if holds left then enterCode kind right [] exec else nothing

def thenBranches (left right : Value) : Plan := fun exec => do
  let branches := exec.world.store.itemsOf right
  if !(← Check.size branches 2 .strong) then
    nothing
  else if !(← Check.types branches [.code, .code] .strong) then
    nothing
  else
    enterCode .block (argument branches (if holds left then 0 else 1)) [] exec

def forDo (left right : Value) : Plan := fun exec =>
  match left with
  | .forPart spec =>
      enterLoop (.forLoop spec.variableName spec.start spec.stop spec.step
        (exec.world.store.codeOf right) .start) exec
  | _ => nothing

def forEach (left right : Value) : Plan := fun exec =>
  enterLoop (.forEach (exec.world.store.itemsOf right) 0 (exec.world.store.codeOf left)) exec

def whileDo (left right : Value) : Plan := fun exec =>
  enterLoop (.whileLoop (exec.world.store.codeOf left) (exec.world.store.codeOf right) .start) exec

def declareNames (names : List String) : Plan := fun exec =>
  match names, exec.world.scopes.get? exec.scope with
  | name :: _, none =>
      fail (.errorMessage name (ScopeError.unknownScope exec.scope).message)
  | _, _ => change (.declare names)

def declareItems (right : Value) : Plan := fun exec => do
  let names := exec.world.store.itemsOf right
  if ← Check.allOf names .string .strong then
    declareNames (names.map Value.content) exec
  else
    nothing

def nameScope (right : Value) : Plan := fun exec =>
  match exec.world.scopes.setName exec.scope right.content with
  | .ok _ => change (.nameScope right.content)
  | .error _ => fail .scopeNameAlreadySet

def breakOut (value : Value) (name : String) : Plan := fun exec =>
  match exec.handle.stack.findNamed? exec.world.scopes name with
  | some depth => pure (.breakOut depth value)
  | none => fail (.errorMessage "breakOut" s!"no scope named '{name}'")

def spawn (left right : Value) : Plan := fun exec =>
  let (id, _) := exec.world.scheduler.allocate
  pure (.answer (.spawn (exec.world.store.codeOf right) [("_this", left)])
    (.value (.script (some id))))

def sleep (right : Value) : Plan := fun exec => do
  checkSuspension exec
  return .suspend (.at (exec.world.now + Scalar.larger right.number 0))

def waitUntil (right : Value) : Plan := fun exec => do
  checkSuspension exec
  return .enter (.waitUntil (exec.world.store.codeOf right) .start) [] exec.environment []

def terminate (right : Value) : Plan := fun exec =>
  match handleOf? right with
  | none => nothing
  | some id =>
      if id = exec.handle.id then change .terminateSelf
      else
        match exec.world.stateOf? id with
        | none => fail (.errorMessage "terminate" s!"unknown script handle {id}")
        | some state =>
            match state.endNotice? with
            | some notice => do
                Report.note notice
                nothing
            | none => change (.terminate id)

def nameScript (right : Value) : Plan := fun exec =>
  match exec.handle.name with
  | some _ => fail .scriptNameAlreadySet
  | none => change (.nameScript right.content)

end Plan

namespace Command

variable {exec : Execution} {scope : ScopeId} {scopes : Scopes} {name : String} {value : Value}
  {site : Site}

theorem declare_of_ok (declared : exec.world.scopes.declare scope name value = .ok scopes) :
    declare scope name value site exec = (⟨.ok (), []⟩, exec.withScopes scopes) := by
  rw [declare, Work.bind_of_silent (Work.get_apply site exec), declared]
  rfl

theorem declare_of_error {error : ScopeError}
    (failed : exec.world.scopes.declare scope name value = .error error) :
    declare scope name value site exec =
      (⟨.error .statement, [⟨Fault.errorMessage name error.message, site.location⟩]⟩, exec) := by
  rw [declare, Work.bind_of_silent (Work.get_apply site exec), failed]
  rfl

/-! ## Frames -/

theorem enterCode_meets (kind : FrameKind) (code : Value) :
    Meets exec (enterCode kind code) (Plan.enterCode kind code [] exec) :=
  .look (.done fun _ => rfl)

theorem enterLoop_meets (kind : FrameKind) :
    Meets exec (enterLoop kind) (Plan.enterLoop kind exec) :=
  .done fun _ => rfl

theorem enterCode_follows (kind : FrameKind) (code : Value) :
    (enterCode kind code).Follows (.plan (Plan.enterCode kind code [])) :=
  follows_of_meets fun _ => enterCode_meets kind code

theorem enterIsNil_follows (code : Value) :
    (enterIsNil code).Follows (.plan (Plan.enterIsNil code)) :=
  follows_of_meets fun _ => .look (.done fun _ => rfl)

/-- The variable is declared after the frame has been entered, and that never fails. -/
theorem enterWith_follows (this code : Value) :
    (enterWith this code).Follows (.plan (Plan.enterCode .block code [("_this", this)])) := by
  refine follows_of_meets fun exec => .look (.done fun site => ?_)
  let code := exec.world.store.codeOf code
  let entered := exec.enter .block code exec.environment []
  have declared : entered.world.scopes.declare entered.scope "_this" this =
      .ok (exec.world.scopes.push (some exec.scope) [("_this", this)]).2 :=
    exec.world.scopes.declare_push (some exec.scope) "_this" this
  have scope := exec.world.scopes.push_fst (some exec.scope) [("_this", this)]
  have enters : enter .block code none site exec = (⟨.ok entered.scope, []⟩, entered) := rfl
  rw [Work.bind_of_silent enters, Work.bind_of_silent (declare_of_ok declared)]
  simp only [Effect.changed, Execution.enter, scope]
  rfl

theorem whenHolds_follows (kind : FrameKind) (left right : Value) :
    (whenHolds kind left right).Follows (.plan (Plan.whenHolds kind left right)) :=
  follows_of_meets fun _ => .ite (fun _ => enterCode_meets kind right) fun _ => .nothing

theorem thenBranches_follows (left right : Value) :
    (thenBranches left right).Follows (.plan (Plan.thenBranches left right)) := by
  refine follows_of_meets fun exec => .look (.check fun sized => ?_)
  refine .ite (fun _ => .nothing) fun _ => .check fun typed => ?_
  exact .ite (fun _ => .nothing) fun _ => enterCode_meets _ _

theorem forDo_follows (left right : Value) :
    (forDo left right).Follows (.plan (Plan.forDo left right)) := by
  refine follows_of_meets fun exec => ?_
  cases left with
  | forPart spec => exact .look (enterLoop_meets _)
  | _ => exact .nothing

theorem forEach_follows (left right : Value) :
    (forEach left right).Follows (.plan (Plan.forEach left right)) :=
  follows_of_meets fun _ => .look (enterLoop_meets _)

theorem whileDo_follows (left right : Value) :
    (whileDo left right).Follows (.plan (Plan.whileDo left right)) :=
  follows_of_meets fun _ => .look (enterLoop_meets _)

theorem breakOut_follows (value : Value) (name : String) :
    (breakOut value name).Follows (.plan (Plan.breakOut value name)) := by
  refine follows_of_meets fun exec => .look ?_
  unfold Plan.breakOut
  cases exec.handle.stack.findNamed? exec.world.scopes name with
  | some depth => exact .done fun _ => rfl
  | none => exact .fail _

/-! ## Names -/

theorem declareAll_of_open (names : List String) (isOpen : (exec.world.scopes.get? scope).isSome) :
    (names.forM fun name => declare scope name .nil : Work Execution PUnit) site exec =
      (⟨.ok (), []⟩, exec.withScopes (names.foldl
        (fun scopes name => (scopes.bind scope name .nil).getD scopes) exec.world.scopes)) := by
  induction names generalizing exec with
  | nil => rfl
  | cons name names induction =>
      obtain ⟨scopes, bound, stillOpen⟩ := Scopes.exists_bind isOpen name .nil
      have declared : exec.world.scopes.declare scope name .nil = .ok scopes := by
        rw [Scopes.declare, bound]
      have others := @induction (exec.withScopes scopes) stillOpen
      rw [List.foldl_cons, bound, Option.getD_some]
      exact (Work.bind_of_silent (declare_of_ok declared)).trans others

/-- Names are declared one by one as they are declared all at once. -/
theorem declareAll_meets (names : List String) :
    Meets exec (do names.forM fun name => declare exec.scope name .nil; return .nil)
      (Plan.declareNames names exec) := by
  intro site
  unfold Plan.declareNames
  cases isOpen : exec.world.scopes.get? exec.scope with
  | some scope =>
      rw [Work.bind_of_silent (declareAll_of_open names (by rw [isOpen]; rfl))]
      cases names <;> rfl
  | none =>
      cases names with
      | nil => rfl
      | cons name names =>
          have failed : exec.world.scopes.declare exec.scope name .nil =
              .error (.unknownScope exec.scope) := by
            rw [Scopes.declare, Scopes.bind, isOpen, Option.map_none]
          exact Work.bind_of_error (Work.bind_of_error (declare_of_error failed))

theorem declareName_follows (right : Value) :
    (declareName right).Follows (.plan (Plan.declareNames [right.content])) := by
  refine follows_of_meets fun exec => .look ?_
  have one : declare exec.scope right.content .nil =
      [right.content].forM fun name => declare exec.scope name .nil := by simp
  rw [one]
  exact declareAll_meets _

theorem declareItems_follows (right : Value) :
    (declareItems right).Follows (.plan (Plan.declareItems right)) := by
  refine follows_of_meets fun exec => .look (.check fun typed => ?_)
  refine .ite (fun _ => ?_) fun _ => .nothing
  have contents : (exec.world.store.itemsOf right).forM
        (fun name => declare exec.scope name.content .nil) =
      ((exec.world.store.itemsOf right).map Value.content).forM
        fun name => declare exec.scope name .nil := by simp [List.forM_map]
  rw [contents]
  exact declareAll_meets _

theorem nameScope_follows (right : Value) :
    (nameScope right).Follows (.plan (Plan.nameScope right)) := by
  refine follows_of_meets fun exec => .look ?_
  unfold Plan.nameScope
  cases named : exec.world.scopes.setName exec.scope right.content with
  | ok scopes =>
      refine .done fun _ => ?_
      simp only [Effect.changed, Change.perform, named]
      rfl
  | error error => exact .fail _

theorem nameScript_follows (right : Value) :
    (nameScript right).Follows (.plan (Plan.nameScript right)) := by
  refine follows_of_meets fun exec => .look ?_
  unfold Plan.nameScript
  cases exec.handle.name with
  | some _ => exact .fail _
  | none => exact .done fun _ => rfl

/-! ## Scripts -/

theorem spawn_follows (left right : Value) :
    (spawn left right).Follows (.plan (Plan.spawn left right)) :=
  follows_of_meets fun _ => .look (.done fun _ => rfl)

theorem sleep_follows (right : Value) : (sleep right).Follows (.plan (Plan.sleep right)) :=
  follows_of_meets fun _ => .look (.check fun _ => .look (.done fun _ => rfl))

theorem waitUntil_follows (right : Value) :
    (waitUntil right).Follows (.plan (Plan.waitUntil right)) :=
  follows_of_meets fun _ => .look (.check fun _ => .look (.done fun _ => rfl))

theorem terminate_follows (right : Value) :
    (terminate right).Follows (.plan (Plan.terminate right)) := by
  refine follows_of_meets fun exec => .look ?_
  unfold Plan.terminate
  cases handleOf? right with
  | none => exact .nothing
  | some id =>
      refine .ite (fun _ => .done fun _ => rfl) fun _ => ?_
      cases exec.world.stateOf? id with
      | none => exact .fail _
      | some state =>
          dsimp only
          cases state.endNotice? with
          | some notice => exact .check fun _ => .nothing
          | none => exact .done fun _ => rfl

end Command

end SimScript

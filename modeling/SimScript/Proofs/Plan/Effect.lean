import SimScript.Execution.Answer

/-!
# Effects of commands

What a command has changed and answered by its end, as a whole.  There are few kinds of
effects, so a property of all commands needs a look at each kind of effect and no look at
each command.
-/

namespace SimScript

/-- What a command changes besides the operands. -/
inductive Change where
  | nothing
  /-- Overwrites an array. -/
  | write (cell : CellId) (items : Array Value)
  /-- Gives some variables of the current scope the value nil. -/
  | declare (names : List String)
  /-- Names the current scope. -/
  | nameScope (name : String)
  /-- Names the script. -/
  | nameScript (name : String)
  /-- Starts another script. -/
  | spawn (code : CodeBlock) (bindings : Bindings)
  /-- Ends another script. -/
  | terminate (id : HandleId)
  /-- Ends this script before its next instruction. -/
  | terminateSelf
  /-- Changes live objects, one after the other. -/
  | updateObjects (updates : List (ObjectRef × (ObjectData → ObjectData)))
  /-- Creates an object, as a member of a group where one is given. -/
  | createObject (kind : ObjectKind) (data : ObjectData) (group : Option ObjectRef)
  /-- Deletes an object and takes it out of the registry. -/
  | deleteObject (ref : ObjectRef)
  | extensions (registry : Extension.Registry Empty)
  | network (table : Network.SessionTable)

/-- What a command comes to. -/
inductive Effect where
  /-- Goes on with a reply. -/
  | answer (change : Change) (reply : Reply)
  /-- Enters code; the reply comes when its frame is left. -/
  | enter (kind : FrameKind) (code : CodeBlock) (environment : Environment)
      (bindings : Bindings)
  /-- Leaves frames until `depth` of them remain, and hands a value to what remains. -/
  | breakOut (depth : Nat) (value : Value)
  /-- Replies nil, and waits. -/
  | suspend (wake : WakeCondition)

def Change.objects (table : ObjectTable) : Change → ObjectTable
  | .updateObjects updates =>
      updates.foldl (fun table (ref, update) => table.update ref update) table
  | .createObject kind data group =>
      let created := table.create kind data
      match group with
      | some group => created.join group (table.next kind)
      | none => created
  | .deleteObject ref => (table.destroy ref).forgetDeleted
  | _ => table

def Change.perform (change : Change) (exec : Execution) : Execution :=
  match change with
  | .nothing => exec
  | .write cell items => exec.withStore (exec.world.store.write cell items)
  | .declare names =>
      exec.withScopes (names.foldl
        (fun scopes name => (scopes.bind exec.scope name .nil).getD scopes) exec.world.scopes)
  | .nameScope name =>
      match exec.world.scopes.setName exec.scope name with
      | .ok scopes => exec.withScopes scopes
      | .error _ => exec
  | .nameScript name => { exec with handle := { exec.handle with name := some name } }
  | .spawn code bindings =>
      { exec with world := (exec.world.spawn code bindings exec.location).2 }
  | .terminate id => { exec with world := exec.world.terminate id }
  | .terminateSelf => { exec with handle := { exec.handle with terminateRequested := true } }
  | .updateObjects _ | .createObject _ _ _ | .deleteObject _ =>
      exec.withStore (exec.world.store.withObjects fun table => change.objects table)
  | .extensions registry => { exec with world := { exec.world with extensions := registry } }
  | .network table => { exec with world := { exec.world with network := table } }

namespace Effect

/-- How a command with an effect ends. -/
def ending : Effect → Command.Answer
  | .answer _ reply => .reply reply
  | .enter _ _ _ _ | .breakOut _ _ => .deferred
  | .suspend wake => .suspend wake

def changed (effect : Effect) (exec : Execution) : Execution :=
  match effect with
  | .answer change _ => change.perform exec
  | .enter kind code environment bindings => exec.enter kind code environment bindings
  | .breakOut depth value => (exec.leaveTo depth).deliver value
  | .suspend _ => exec

def perform (effect : Effect) (exec : Execution) : Execution :=
  (effect.changed exec).respond effect.ending

theorem perform_answer (change : Change) (reply : Reply) (exec : Execution) :
    (answer change reply).perform exec = (change.perform exec).give reply := rfl

end Effect

end SimScript

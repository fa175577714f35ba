import SimScript.Machine.Turn

/-!
# The machine

The world in the hands of a host.  What the host asks for is done at once, and what it
asks for may raise events, which go to the log of the world.
-/

namespace SimScript

inductive MachineError where
  | unknownHandle (id : HandleId)
  | privateGlobal (name : String)
  | scope (error : ScopeError)
  deriving DecidableEq

def MachineError.message : MachineError → String
  | .unknownHandle id => s!"unknown script handle {id}"
  | .privateGlobal name => s!"private variable '{name}' cannot be stored in the global scope"
  | .scope error => s!"scope error: {error.message}"

/-- A world in the hands of a host. -/
structure Machine where
  world : World

namespace Machine

variable {α : Type}

def ofSettings (settings : Settings) : Machine :=
  ⟨.ofSettings settings⟩

def site (machine : Machine) : Site :=
  ⟨Location.host, machine.world.logger⟩

def mapWorld (machine : Machine) (update : World → World) : Machine :=
  ⟨update machine.world⟩

def mapLogger (machine : Machine) (update : Logger → Logger) : Machine :=
  machine.mapWorld fun world => { world with logger := update world.logger }

/-- Does checked work on behalf of the host; an abort comes back to the host. -/
def report (machine : Machine) (work : Report α) : Except Abort α × Machine :=
  let checked := work machine.site
  (checked.result, machine.mapLogger fun logger => logger.emitAll checked.events.toArray)

def ofPerformed (done : Performed α) : α × Machine :=
  (done.answer, ⟨done.world⟩)

def execute (machine : Machine) (fuel : Nat) (code : CodeBlock) :
    Option (ScriptOutcome × Machine) :=
  (machine.world.execute fuel code).map ofPerformed

def spawn (machine : Machine) (code : CodeBlock) (bindings : Bindings) : HandleId × Machine :=
  let (id, world) := machine.world.spawn code bindings Location.host
  (id, ⟨world⟩)

def runTurn (machine : Machine) (fuel : Nat) : Option (TurnReport × Machine) :=
  (machine.world.runTurn fuel).map ofPerformed

def advance (machine : Machine) (seconds : Float) : Machine :=
  machine.mapWorld (World.advance seconds)

def tick (machine : Machine) (fuel : Nat) (seconds : Float) : Option (TurnReport × Machine) :=
  (machine.advance seconds).runTurn fuel

/-- Runs turns until every handle has come to its end or `turns` turns were run. -/
def runUntilIdle (machine : Machine) (fuel turns : Nat) : Option (Nat × Machine) :=
  (machine.world.runUntilIdle fuel turns).map ofPerformed

def handle? (machine : Machine) (id : HandleId) : Option Handle :=
  machine.world.scheduler.get? id

/-- The state of a handle, with a warning if it has come to its end. -/
def inspect (machine : Machine) (id : HandleId) :
    Except MachineError (HandleState × Machine) :=
  match machine.world.stateOf? id with
  | none => .error (.unknownHandle id)
  | some state =>
      match state.endNotice? with
      | some notice => .ok (state, (machine.report (Report.note notice)).2)
      | none => .ok (state, machine)

/-- Ends a handle, and tells its state; one that has come to its end stays as it is, with a
warning. -/
def terminate (machine : Machine) (id : HandleId) :
    Except MachineError (HandleState × Machine) := do
  let (state, inspected) ← machine.inspect id
  let ended := inspected.mapWorld fun world => world.terminate id
  return ((ended.world.stateOf? id).getD state, ended)

/-- Whether a handle has come to its end, with a warning if it has. -/
def scriptDone (machine : Machine) (id : HandleId) : Except MachineError (Bool × Machine) := do
  let (state, inspected) ← machine.inspect id
  return (state.isAbsorbed, inspected)

def reap (machine : Machine) : Nat × Machine :=
  let (count, scheduler) := machine.world.scheduler.reap
  (count, machine.mapWorld fun world => { world with scheduler })

def snapshot? (machine : Machine) (id : HandleId) : Option (List FrameSnapshot) :=
  (machine.handle? id).map fun handle => handle.stack.snapshot

def setGlobal (machine : Machine) (name : String) (value : Value) : Except MachineError Machine :=
  if isPrivate name then .error (.privateGlobal name)
  else
    .ok (machine.mapWorld fun world => { world with scopes := world.scopes.setGlobal name value })

def global? (machine : Machine) (name : String) : Option Value :=
  machine.world.scopes.global.get? name

def objects (machine : Machine) : ObjectTable :=
  machine.world.store.objects

def mapObjects (machine : Machine) (update : ObjectTable → ObjectTable) : Machine :=
  machine.mapWorld fun world => { world with store := world.store.withObjects update }

def createObject (machine : Machine) (kind : ObjectKind) (className : String) :
    ObjectRef × Machine :=
  (machine.objects.next kind, machine.mapObjects fun table => table.create kind { className })

def setConfigs (machine : Machine) (configs : ConfigTree) : Machine :=
  machine.mapWorld fun world => { world with configs }

def lookupConfig (machine : Machine) (path : List String) (strength : Strength) :
    Except Abort (Option ConfigEntry) × Machine :=
  machine.report (machine.world.configs.lookupChecked path strength)

def setLoader (machine : Machine) (loader : Extension.Loader Empty) : Machine :=
  machine.mapWorld fun world => { world with extensions := world.extensions.setLoader loader }

def loadExtension (machine : Machine) (name : String) : Bool × Machine :=
  let (checked, extensions) :=
    (Extension.Registry.load name).run machine.site machine.world.extensions
  let tended := machine.mapWorld fun world =>
    { world with extensions, logger := world.logger.emitAll checked.events.toArray }
  match checked.result with
  | .ok (.ok available) => (available, tended)
  | _ => (false, tended)

def mapNetwork (machine : Machine) (update : Network.SessionTable → Network.SessionTable) :
    Machine :=
  machine.mapWorld fun world => { world with network := update world.network }

/-- Opens a session, unless networking is disabled or the target is rejected. -/
def connect (machine : Machine) (target : String) : Option Network.SessionId × Machine :=
  let enabled := machine.world.settings.networkingEnabled
  let (checked, network) :=
    Network.SessionTable.connect enabled target machine.site machine.world.network
  let tended := machine.mapWorld fun world =>
    { world with network, logger := world.logger.emitAll checked.events.toArray }
  match checked.result with
  | .ok session => (session, tended)
  | .error _ => (none, tended)

end Machine

end SimScript

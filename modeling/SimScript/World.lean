import SimScript.Config.Tree
import SimScript.Extension.Registry
import SimScript.Network.Sessions
import SimScript.Scheduler
import SimScript.Settings.Basic
import SimScript.Store.Basic

/-!
# The world

Everything that scripts share: the store, the scopes, the scheduler with the other
scripts, the config tree, the extensions, the network and the log.
-/

namespace SimScript

/-- What scripts share. -/
structure World where
  settings : Settings := {}
  store : Store := {}
  scopes : Scopes := {}
  scheduler : Scheduler := {}
  configs : ConfigTree := {}
  /-- The loader of the host is taken not to fail. -/
  extensions : Extension.Registry Empty := {}
  network : Network.SessionTable := {}
  logger : Logger := {}

def HandleState.endNotice? : HandleState → Option Fault
  | .finished => some .scriptHandleAlreadyFinished
  | .terminated => some .scriptHandleAlreadyTerminated
  | .created | .running | .suspended => none

namespace World

def ofSettings (settings : Settings) : World :=
  { settings
    extensions := .ofBufferSize settings.extensionBufferSize
    logger := { levels := settings.logLevels } }

/-- The simulated time, in seconds. -/
def now (world : World) : Float :=
  world.scheduler.clock

/-- A new handle that will run some code in a scope of its own with some variables.  The scheduler
does not keep it yet. -/
def newHandle (world : World) (code : CodeBlock) (bindings : Bindings)
    (environment : Environment) (origin : Location) : Handle × World :=
  let (id, scheduler) := world.scheduler.allocate
  let (scope, scopes) := world.scopes.push none bindings
  ({ id, stack := [{ kind := .block, code, scope, environment, origin }] },
    { world with scheduler, scopes })

/-- Queues code in a scheduled environment; it runs in the next turn. -/
def spawn (world : World) (code : CodeBlock) (bindings : Bindings) (origin : Location) :
    HandleId × World :=
  let (handle, world) := world.newHandle code bindings .scheduled origin
  (handle.id, { world with scheduler := world.scheduler.enqueue handle })

/-- Ends a handle that the scheduler keeps, and closes its scopes.  One that has come to its end
stays as it is. -/
def terminate (world : World) (id : HandleId) : World :=
  match world.scheduler.get? id with
  | none => world
  | some handle =>
      if handle.isAbsorbed then world
      else
        { world with
          scopes := handle.stack.unwind world.scopes
          scheduler := world.scheduler.put { handle.become .terminated with stack := [] } }

def stateOf? (world : World) (id : HandleId) : Option HandleState :=
  (world.scheduler.get? id).map fun handle => handle.state

end World

end SimScript

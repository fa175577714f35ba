import SimScript.Handle
import SimScript.Scalar.Arithmetic

/-!
# The scheduler

Keeps the handles, the queue in which they take turns, and the simulated clock.
It runs nothing itself: a handle is taken out, run, and put back, so a handle that
runs is not among those that the scheduler keeps.
-/

namespace SimScript

/-- The handles, the queue, and the clock. -/
structure Scheduler where
  handles : List Handle := []
  queue : List HandleId := []
  lastId : Nat := 0
  clock : Float := 0
  turns : Nat := 0
  deriving Inhabited

namespace Scheduler

def get? (scheduler : Scheduler) (id : HandleId) : Option Handle :=
  scheduler.handles.find? fun handle => handle.id = id

theorem id_of_get? {scheduler : Scheduler} {id : HandleId} {handle : Handle}
    (found : scheduler.get? id = some handle) : handle.id = id := by
  simpa using List.find?_some found

/-- A number that no handle has had. -/
def allocate (scheduler : Scheduler) : HandleId × Scheduler :=
  (scheduler.lastId + 1, { scheduler with lastId := scheduler.lastId + 1 })

def remove (scheduler : Scheduler) (id : HandleId) : Scheduler :=
  { scheduler with handles := scheduler.handles.filter fun handle => handle.id != id }

/-- Keeps a handle, in place of the one of its number. -/
def put (scheduler : Scheduler) (handle : Handle) : Scheduler :=
  { scheduler with
    handles := (scheduler.handles.filter fun other => other.id != handle.id) ++ [handle] }

def enqueue (scheduler : Scheduler) (handle : Handle) : Scheduler :=
  let kept := scheduler.put handle
  { kept with queue := kept.queue ++ [handle.id] }

/-- Moves the clock forward; it never moves back. -/
def advance (scheduler : Scheduler) (seconds : Float) : Scheduler :=
  if seconds > 0 then { scheduler with clock := scheduler.clock + seconds } else scheduler

def isLive (scheduler : Scheduler) (id : HandleId) : Bool :=
  (scheduler.get? id).any fun handle => !handle.isAbsorbed

def isReady (scheduler : Scheduler) (id : HandleId) : Bool :=
  (scheduler.get? id).any fun handle => handle.isReady scheduler.clock

/-- Begins a turn: the handles that may run leave the queue in order, those that still wait stay in
it, and those that have come to their end are dropped. -/
def beginTurn (scheduler : Scheduler) : List HandleId × Scheduler :=
  let (ready, waiting) := (scheduler.queue.filter scheduler.isLive).partition scheduler.isReady
  (ready, { scheduler with queue := waiting, turns := scheduler.turns + 1 })

/-- Queues a handle for the next turn unless it has come to its end or is queued already. -/
def requeue (scheduler : Scheduler) (id : HandleId) : Scheduler :=
  if scheduler.isLive id && !scheduler.queue.contains id then
    { scheduler with queue := scheduler.queue ++ [id] }
  else scheduler

def reap (scheduler : Scheduler) : Nat × Scheduler :=
  let kept := scheduler.handles.filter fun handle => !handle.isAbsorbed
  (scheduler.handles.length - kept.length, { scheduler with handles := kept })

/-- Whether every handle has come to its end. -/
def isIdle (scheduler : Scheduler) : Bool :=
  scheduler.handles.all Handle.isAbsorbed

def wakeTime? (handle : Handle) : Option Float :=
  match handle.state, handle.wake with
  | .suspended, some (.at time) => some time
  | _, _ => none

def nextWake? (scheduler : Scheduler) : Option Float :=
  match scheduler.handles.filterMap wakeTime? with
  | [] => none
  | first :: rest => some (rest.foldl Scalar.smaller first)

end Scheduler

end SimScript

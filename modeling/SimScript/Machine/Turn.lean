import SimScript.Execution.Run

/-!
# Turns

In a turn each handle that is ready gets to run once, in the order of the queue.
Code can also be run at once, outside of the turns.
-/

namespace SimScript

/-- What an operation of the host came to: its answer, the events it raised, and the world it
leaves. -/
structure Performed (α : Type) where
  answer : α
  events : Array Event
  world : World

/-- What code that ran at once came to. -/
structure ScriptOutcome where
  id : HandleId
  state : HandleState
  value : Value
  executed : Nat

structure TurnReport where
  turn : Nat := 0
  /-- How many handles got to run. -/
  ran : Nat := 0
  finished : Nat := 0
  terminated : Nat := 0
  suspended : Nat := 0
  /-- How many instructions they executed together. -/
  instructions : Nat := 0
  deriving DecidableEq, Inhabited

def TurnReport.count (report : TurnReport) (state : HandleState) (instructions : Nat) :
    TurnReport :=
  let counted :=
    { report with ran := report.ran + 1, instructions := report.instructions + instructions }
  match state with
  | .finished => { counted with finished := counted.finished + 1 }
  | .terminated => { counted with terminated := counted.terminated + 1 }
  | .suspended => { counted with suspended := counted.suspended + 1 }
  | .created | .running => counted

namespace World

/-- Runs code at once, in an environment that does not suspend.  A handle that does not come to its
end by itself is ended. -/
def execute (fuel : Nat) (code : CodeBlock) (world : World) : Option (Performed ScriptOutcome) := do
  let (handle, world) := world.newHandle code [] .unscheduled Location.host
  let (events, yielded) ← (Execution.resume world (handle.become .running)).run fuel #[]
  let ended := if yielded.handle.isAbsorbed then yielded else yielded.terminate
  let outcome : ScriptOutcome :=
    { id := ended.handle.id
      state := ended.handle.state
      value := ended.handle.result
      executed := ended.handle.executed }
  return ⟨outcome, events,
    { ended.world with scheduler := ended.world.scheduler.put ended.handle }⟩

/-- Lets one handle run until it yields, and puts it back. -/
def runHandle (fuel : Nat) (events : Array Event) (handle : Handle) (world : World) :
    Option (Array Event × Execution) :=
  let taken := { world with scheduler := world.scheduler.remove handle.id }
  (Execution.resume taken ({ handle with wake := none }.become .running)).run fuel events

/-- Keeps a handle that has yielded, and queues it again if it is to go on. -/
def keep (handle : Handle) (world : World) : World :=
  { world with scheduler := (world.scheduler.put handle).requeue handle.id }

def runBatch (fuel : Nat) :
    List HandleId → Array Event → TurnReport → World → Option (Performed TurnReport)
  | [], events, report, world => some ⟨report, events, world⟩
  | id :: rest, events, report, world =>
      match world.scheduler.get? id with
      | none => runBatch fuel rest events report world
      | some handle =>
          match runHandle fuel events handle world with
          | none => none
          | some (events, exec) =>
              let executed := exec.handle.executed - handle.executed
              runBatch fuel rest events (report.count exec.handle.state executed)
                (keep exec.handle exec.world)

def runTurn (fuel : Nat) (world : World) : Option (Performed TurnReport) :=
  let (batch, scheduler) := world.scheduler.beginTurn
  runBatch fuel batch #[] { turn := scheduler.turns } { world with scheduler }

def advance (seconds : Float) (world : World) : World :=
  { world with scheduler := world.scheduler.advance seconds }

/-- Runs turns until every handle has come to its end or `turns` turns were run, and tells how many
were.  Where all handles sleep, the clock jumps to the first that wakes. -/
def runUntilIdle (fuel : Nat) : (turns : Nat) → World → Option (Performed Nat)
  | 0, world => some ⟨0, #[], world⟩
  | turns + 1, world => do
      if world.scheduler.isIdle then
        return ⟨0, #[], world⟩
      let first ← runTurn fuel world
      match first.answer.ran, first.world.scheduler.nextWake? with
      | 0, none => return ⟨1, first.events, first.world⟩
      | 0, some wake =>
          let rest ← runUntilIdle fuel turns (first.world.advance (wake - first.world.now))
          return ⟨rest.answer + 1, first.events ++ rest.events, rest.world⟩
      | _, _ =>
          let rest ← runUntilIdle fuel turns first.world
          return ⟨rest.answer + 1, first.events ++ rest.events, rest.world⟩

end World

end SimScript

import SimScript.Proofs.Execution.Resources
import SimScript.Proofs.Machine.Operation

/-!
# Reachable situations

A machine is between two operations, between two handles of a turn, or has a handle
at work.  The rules below lead from one situation to the next; whatever a host asks
for is made of them, so an invariant of all situations needs a look at each rule and
no look at the operations.  `permits` says which values a host may hand over.

`Follows` says what a relation between situations has to satisfy to hold between any
two where the machine worked from the one to the other.
-/

namespace SimScript

/-- Where a machine stands. -/
inductive Situation where
  /-- Between two operations. -/
  | idle (world : World)
  /-- In a turn, between two handles; `batch` are those that are still to run. -/
  | turn (batch : List HandleId) (world : World)
  /-- A handle is at work, in a turn or, without a batch, outside of the turns. -/
  | atWork (exec : Execution) (batch : Option (List HandleId))

def Situation.world : Situation → World
  | .idle world | .turn _ world => world
  | .atWork exec _ => exec.world

/-- All handles of a situation: those that the scheduler keeps, and the one at work. -/
def Situation.handles : Situation → List Handle
  | .idle world | .turn _ world => world.scheduler.handles
  | .atWork exec _ => exec.handle :: exec.world.scheduler.handles

namespace Scheduler

variable {scheduler : Scheduler} {handle : Handle}

theorem mem_of_get? {id : HandleId} (found : scheduler.get? id = some handle) :
    handle ∈ scheduler.handles :=
  List.mem_of_find?_eq_some found

@[simp] theorem requeue_handles (id : HandleId) :
    (scheduler.requeue id).handles = scheduler.handles := by
  unfold requeue
  split <;> rfl

@[simp] theorem requeue_lastId (id : HandleId) :
    (scheduler.requeue id).lastId = scheduler.lastId := by
  unfold requeue
  split <;> rfl

@[simp] theorem advance_handles (seconds : Float) :
    (scheduler.advance seconds).handles = scheduler.handles := by
  unfold advance
  split <;> rfl

@[simp] theorem advance_queue (seconds : Float) :
    (scheduler.advance seconds).queue = scheduler.queue := by
  unfold advance
  split <;> rfl

@[simp] theorem advance_lastId (seconds : Float) :
    (scheduler.advance seconds).lastId = scheduler.lastId := by
  unfold advance
  split <;> rfl

theorem put_handles : (scheduler.put handle).handles =
    (scheduler.remove handle.id).handles ++ [handle] := rfl

theorem mem_put_of_ne {other : Handle} (member : other ∈ scheduler.handles)
    (different : other.id ≠ handle.id) : other ∈ (scheduler.put handle).handles := by
  rw [put_handles]
  exact List.mem_append_left _ (List.mem_filter.mpr ⟨member, bne_iff_ne.mpr different⟩)

theorem present_put (new : Handle) (member : handle ∈ scheduler.handles) :
    ∃ later ∈ (scheduler.put new).handles, later.id = handle.id := by
  by_cases same : handle.id = new.id
  · refine ⟨new, ?_, same.symm⟩
    rw [put_handles]
    exact List.mem_append_right _ (List.mem_singleton_self _)
  · exact ⟨handle, mem_put_of_ne member same, rfl⟩

end Scheduler

theorem World.keep_handles {world : World} {handle : Handle} :
    (World.keep handle world).scheduler.handles = (world.scheduler.put handle).handles :=
  Scheduler.requeue_handles _

theorem World.keep_lastId {world : World} {handle : Handle} :
    (World.keep handle world).scheduler.lastId = world.scheduler.lastId :=
  Scheduler.requeue_lastId _

/-- What a host does to the world without running scripts. -/
inductive World.Tended (permits : Store → Value → Prop) (before : World) : World → Prop where
  | spawn {code : CodeBlock} {bindings : Bindings}
      (constants : ∀ value ∈ code.constants, permits before.store value)
      (bound : ∀ binding ∈ bindings, permits before.store binding.2) :
      Tended permits before (before.spawn code bindings Location.host).2
  | terminate (id : HandleId) (logger : Logger) :
      Tended permits before { before.terminate id with logger }
  | advance (seconds : Float) : Tended permits before (before.advance seconds)
  | reap : Tended permits before { before with scheduler := before.scheduler.reap.2 }
  | setGlobal {value : Value} (name : String) (permitted : permits before.store value) :
      Tended permits before { before with scopes := before.scopes.setGlobal name value }
  | newArray {items : List Value} (permitted : ∀ item ∈ items, permits before.store item) :
      Tended permits before { before with store := (before.store.newArray items.toArray).2 }
  | newBlock {code : CodeBlock} (permitted : ∀ value ∈ code.constants, permits before.store value) :
      Tended permits before { before with store := (before.store.newBlock code).2 }
  | objects (update : ObjectTable → ObjectTable) :
      Tended permits before { before with store := before.store.withObjects update }
  | equip (configs : ConfigTree) (extensions : Extension.Registry Empty)
      (network : Network.SessionTable) (logger : Logger) :
      Tended permits before { before with configs, extensions, network, logger }

def World.startAtOnce (world : World) (code : CodeBlock) : Execution :=
  let created := world.newHandle code [] .unscheduled Location.host
  .resume created.2 (created.1.become .running)

def World.startKept (world : World) (handle : Handle) : Execution :=
  .resume { world with scheduler := world.scheduler.remove handle.id }
    ({ handle with wake := none }.become .running)

/-- The world after code that ran at once; a handle that did not come to its end is ended. -/
def Execution.closed (exec : Execution) : World :=
  let ended := if exec.handle.isAbsorbed then exec else exec.terminate
  { ended.world with scheduler := ended.world.scheduler.put ended.handle }

/-- One situation leads to the next. -/
inductive Situation.Next (permits : Store → Value → Prop) : Situation → Situation → Prop where
  | tend {world after : World} (tended : world.Tended permits after) :
      Next permits (.idle world) (.idle after)
  | execute {world : World} {code : CodeBlock}
      (permitted : ∀ value ∈ code.constants, permits world.store value) :
      Next permits (.idle world) (.atWork (world.startAtOnce code) none)
  | beginTurn {world : World} :
      Next permits (.idle world) (.turn world.scheduler.beginTurn.1
        { world with scheduler := world.scheduler.beginTurn.2 })
  | skip {id : HandleId} {rest : List HandleId} {world : World}
      (gone : world.scheduler.get? id = none) :
      Next permits (.turn (id :: rest) world) (.turn rest world)
  | take {id : HandleId} {rest : List HandleId} {world : World} {handle : Handle}
      (found : world.scheduler.get? id = some handle) :
      Next permits (.turn (id :: rest) world) (.atWork (world.startKept handle) (some rest))
  | advance {exec : Execution} {batch : Option (List HandleId)}
      (running : exec.handle.state = .running) :
      Next permits (.atWork exec batch) (.atWork exec.advance.2 batch)
  | keep {exec : Execution} {rest : List HandleId} (yielded : exec.handle.state ≠ .running) :
      Next permits (.atWork exec (some rest)) (.turn rest (World.keep exec.handle exec.world))
  | close {exec : Execution} (yielded : exec.handle.state ≠ .running) :
      Next permits (.atWork exec none) (.idle exec.closed)
  | endTurn {world : World} : Next permits (.turn [] world) (.idle world)

/-- The situations that a host can bring about with values that it is permitted to hand over. -/
inductive Situation.Reachable (permits : Store → Value → Prop) : Situation → Prop where
  | fresh (settings : Settings) : Reachable permits (.idle (.ofSettings settings))
  | tend {world after : World} (reached : Reachable permits (.idle world))
      (tended : world.Tended permits after) : Reachable permits (.idle after)
  | execute {world : World} {code : CodeBlock} (reached : Reachable permits (.idle world))
      (permitted : ∀ value ∈ code.constants, permits world.store value) :
      Reachable permits (.atWork (world.startAtOnce code) none)
  | beginTurn {world : World} (reached : Reachable permits (.idle world)) :
      Reachable permits (.turn world.scheduler.beginTurn.1
        { world with scheduler := world.scheduler.beginTurn.2 })
  | skip {id : HandleId} {rest : List HandleId} {world : World}
      (reached : Reachable permits (.turn (id :: rest) world))
      (gone : world.scheduler.get? id = none) : Reachable permits (.turn rest world)
  | take {id : HandleId} {rest : List HandleId} {world : World} {handle : Handle}
      (reached : Reachable permits (.turn (id :: rest) world))
      (found : world.scheduler.get? id = some handle) :
      Reachable permits (.atWork (world.startKept handle) (some rest))
  | advance {exec : Execution} {batch : Option (List HandleId)}
      (reached : Reachable permits (.atWork exec batch))
      (running : exec.handle.state = .running) :
      Reachable permits (.atWork exec.advance.2 batch)
  | keep {exec : Execution} {rest : List HandleId}
      (reached : Reachable permits (.atWork exec (some rest)))
      (yielded : exec.handle.state ≠ .running) :
      Reachable permits (.turn rest (World.keep exec.handle exec.world))
  | close {exec : Execution} (reached : Reachable permits (.atWork exec none))
      (yielded : exec.handle.state ≠ .running) : Reachable permits (.idle exec.closed)
  | endTurn {world : World} (reached : Reachable permits (.turn [] world)) :
      Reachable permits (.idle world)

/-- The machines that a host can bring about with values that it is permitted to hand over. -/
inductive Machine.Reachable (permits : Store → Value → Prop) : Machine → Prop where
  | fresh (settings : Settings) : Reachable permits (.ofSettings settings)
  | serve {machine after : Machine} {fuel : Nat} {operation : Operation} {answer : Answer}
      (reached : Reachable permits machine)
      (permitted : ∀ value ∈ operation.values, permits machine.world.store value)
      (served : machine.serve fuel operation = some (answer, after)) : Reachable permits after

/-- No script is lost on the way from one situation to another. -/
def Situation.Retains (before after : Situation) : Prop :=
  ∀ handle ∈ before.handles, ∃ later ∈ after.handles, later.id = handle.id

/-- An operation that asks about a handle first changes nothing where it is refused, and otherwise
goes on in the same world, but for the log. -/
theorem Machine.orRefused_inspect {α : Type} {machine after : Machine} {id : HandleId}
    {answer : Except MachineError α → Answer} {told : Answer}
    (next : HandleState → Machine → α × Machine)
    (served : machine.orRefused answer (do
      let (state, inspected) ← machine.inspect id
      return next state inspected) = (told, after)) :
    after = machine ∨
      ∃ state logger, after = (next state ⟨{ machine.world with logger }⟩).2 := by
  cases asked : machine.inspect id with
  | error error =>
      rw [asked] at served
      exact .inl (Prod.mk.inj served).2.symm
  | ok answered =>
      obtain ⟨state, inspected⟩ := answered
      rw [asked] at served
      have same : ∃ logger, inspected = ⟨{ machine.world with logger }⟩ := by
        unfold Machine.inspect at asked
        split at asked
        · cases asked
        · split at asked <;> obtain ⟨_, rfl⟩ := Prod.mk.inj (Except.ok.inj asked)
          · exact ⟨_, rfl⟩
          · exact ⟨_, rfl⟩
      obtain ⟨logger, rfl⟩ := same
      exact .inr ⟨state, logger, (Prod.mk.inj served).2.symm⟩

theorem World.terminate_logger (world : World) (id : HandleId) (logger : Logger) :
    { world with logger }.terminate id = { world.terminate id with logger } := by
  unfold World.terminate
  dsimp only
  split
  · rfl
  · split <;> rfl

theorem World.terminate_retains {world : World} (id : HandleId) :
    Situation.Retains (.idle world) (.idle (world.terminate id)) := by
  intro handle member
  unfold World.terminate
  split
  · exact ⟨handle, member, rfl⟩
  · split
    · exact ⟨handle, member, rfl⟩
    · exact Scheduler.present_put _ member

def Operation.runs : Operation → Bool
  | .execute _ | .runTurn | .tick _ | .runUntilIdle _ => true
  | _ => false

/-- What an operation that runs no scripts makes of the world.  Most leave objects and sessions
alone. -/
inductive World.Served (permits : Store → Value → Prop) (before : World) :
    Operation → World → Prop where
  | aside {operation : Operation} {after : World} (tended : before.Tended permits after)
      (objects : after.store.objects = before.store.objects)
      (network : after.network = before.network)
      (spares : operation ≠ .reap → Situation.Retains (.idle before) (.idle after)) :
      Served permits before operation after
  | create (kind : ObjectKind) (className : String) :
      Served permits before (.createObject kind className)
        { before with
          store := before.store.withObjects fun table => table.create kind { className } }
  | update (ref : ObjectRef) (change : ObjectData → ObjectData) :
      Served permits before (.updateObject ref change)
        { before with store := before.store.withObjects fun table => table.update ref change }
  | destroy (ref : ObjectRef) : Served permits before (.destroyObject ref)
      { before with store := before.store.withObjects fun table => table.destroy ref }
  | setPlayer (ref : ObjectRef) : Served permits before (.setPlayer ref)
      { before with store := before.store.withObjects fun table => { table with player := ref } }
  | sessions {operation : Operation} {network : Network.SessionTable} {logger : Logger}
      (asked : before.network.Asked network) :
      Served permits before operation { before with network, logger }
  | setConnector (connector : Network.Connector) : Served permits before (.setConnector connector)
      { before with network := { before.network with connector := some connector } }
  | setState (id : Network.SessionId) (state : Network.ConnectionState) :
      Served permits before (.setState id state)
        { before with network := (before.network.setState id state).2 }

theorem World.Served.notes {permits : Store → Value → Prop} {operation : Operation}
    (world : World) (logger : Logger) :
    world.Served permits operation { world with logger } :=
  .aside (.equip world.configs world.extensions world.network logger) rfl rfl
    fun _ handle member => ⟨handle, member, rfl⟩

theorem World.Served.looks {permits : Store → Value → Prop} {operation : Operation}
    (world : World) : world.Served permits operation world :=
  .notes world world.logger

theorem World.Served.tended {permits : Store → Value → Prop} {before after : World}
    {operation : Operation} (served : before.Served permits operation after) :
    before.Tended permits after ∧
      (operation ≠ .reap → Situation.Retains (.idle before) (.idle after)) := by
  have keeps : ∀ {changed : World}, changed.scheduler.handles = before.scheduler.handles →
      Situation.Retains (.idle before) (.idle changed) := by
    intro changed same handle member
    refine ⟨handle, ?_, rfl⟩
    rwa [Situation.handles, same]
  cases served with
  | aside tended _ _ spares => exact ⟨tended, spares⟩
  | create | update | destroy | setPlayer => exact ⟨.objects _, fun _ => keeps rfl⟩
  | sessions | setConnector | setState => exact ⟨.equip _ _ _ _, fun _ => keeps rfl⟩

section Served

variable {permits : Store → Value → Prop} {fuel : Nat} {machine after : Machine}
  {answer : Answer} {name : String} {id : HandleId}

theorem World.Served.apart {before after : World} {operation : Operation}
    (tended : before.Tended permits after) (objects : after.store.objects = before.store.objects)
    (network : after.network = before.network)
    (same : after.scheduler.handles = before.scheduler.handles) :
    before.Served permits operation after := by
  refine .aside tended objects network fun _ handle member => ⟨handle, ?_, rfl⟩
  rwa [Situation.handles, same]

theorem World.served_of_spawn {code : CodeBlock} {bindings : List (String × Value)}
    (permitted : ∀ value ∈ (Operation.spawn code bindings).values,
      permits machine.world.store value)
    (served : machine.serve fuel (.spawn code bindings) = some (answer, after)) :
    machine.world.Served permits (.spawn code bindings) after.world := by
  obtain ⟨_, rfl⟩ := Prod.mk.inj (Option.some.inj served)
  simp only [Operation.values, List.mem_append, List.mem_map] at permitted
  have bound : ∀ binding ∈ bindings, permits machine.world.store binding.2 :=
    fun binding member => permitted binding.2 (.inr ⟨binding, member, rfl⟩)
  exact .aside (.spawn (fun value member => permitted value (.inl member)) bound) rfl rfl
    fun _ handle member => Scheduler.present_put _ member

theorem World.served_of_setGlobal {value : Value} (permitted : permits machine.world.store value)
    (served : machine.serve fuel (.setGlobal name value) = some (answer, after)) :
    machine.world.Served permits (.setGlobal name value) after.world := by
  simp only [Machine.serve, Machine.setGlobal] at served
  split at served
  · obtain ⟨_, rfl⟩ := Prod.mk.inj (Option.some.inj served)
    exact .looks _
  · obtain ⟨_, rfl⟩ := Prod.mk.inj (Option.some.inj served)
    exact .apart (.setGlobal name permitted) rfl rfl rfl

theorem World.served_of_terminate
    (served : machine.serve fuel (.terminate id) = some (answer, after)) :
    machine.world.Served permits (.terminate id) after.world := by
  let next (state : HandleState) (inspected : Machine) : HandleState × Machine :=
    let ended := inspected.mapWorld fun world => world.terminate id
    ((ended.world.stateOf? id).getD state, ended)
  obtain rfl | ⟨state, logger, rfl⟩ := Machine.orRefused_inspect next (Option.some.inj served)
  · exact .looks _
  · have world : (next state ⟨{ machine.world with logger }⟩).2.world =
        { machine.world.terminate id with logger } := World.terminate_logger _ _ _
    rw [world]
    obtain ⟨store, network⟩ := machine.world.terminate_spares id
    exact .aside (.terminate id logger) (congrArg Store.objects store) network
      fun _ => World.terminate_retains id

theorem World.served_of_scriptDone
    (served : machine.serve fuel (.scriptDone id) = some (answer, after)) :
    machine.world.Served permits (.scriptDone id) after.world := by
  let next (state : HandleState) (inspected : Machine) : Bool × Machine :=
    (state.isAbsorbed, inspected)
  obtain rfl | ⟨_, logger, rfl⟩ := Machine.orRefused_inspect next (Option.some.inj served)
  · exact .looks _
  · exact .notes _ logger

theorem World.served_of_loadExtension
    (served : machine.serve fuel (.loadExtension name) = some (answer, after)) :
    machine.world.Served permits (.loadExtension name) after.world := by
  have tended : ∃ extensions logger, after.world = { machine.world with extensions, logger } := by
    simp only [Machine.serve, Machine.loadExtension] at served
    split at served <;> cases served <;> exact ⟨_, _, rfl⟩
  obtain ⟨extensions, logger, same⟩ := tended
  rw [same]
  exact .apart (.equip machine.world.configs extensions machine.world.network logger) rfl rfl rfl

theorem Machine.connect_world {target : String} {checked : Checked (Option Network.SessionId)}
    {network : Network.SessionTable}
    (connected : Network.SessionTable.connect machine.world.settings.networkingEnabled target
      machine.site machine.world.network = (checked, network)) :
    (machine.connect target).2.world = { machine.world with
      network, logger := machine.world.logger.emitAll checked.events.toArray } := by
  unfold connect
  dsimp only
  rw [connected]
  split <;> rfl

theorem World.served_of_connect {target : String}
    (served : machine.serve fuel (.connect target) = some (answer, after)) :
    machine.world.Served permits (.connect target) after.world := by
  obtain ⟨_, rfl⟩ := Prod.mk.inj (Option.some.inj served)
  rcases connected : Network.SessionTable.connect machine.world.settings.networkingEnabled target
    machine.site machine.world.network with ⟨⟨result, events⟩, network⟩
  change World.Served permits machine.world _ (machine.connect target).2.world
  rw [Machine.connect_world connected]
  cases result with
  | ok opened => exact .sessions (.connect connected)
  | error abort =>
      rw [Network.SessionTable.connect_error connected]
      exact .notes _ _

/-- Each operation that runs no scripts makes of the world what is listed for it. -/
theorem World.served_of_serve {operation : Operation} (done : operation.runs = false)
    (permitted : ∀ value ∈ operation.values, permits machine.world.store value)
    (served : machine.serve fuel operation = some (answer, after)) :
    machine.world.Served permits operation after.world := by
  cases operation with
  | execute | runTurn | tick | runUntilIdle => cases done
  | spawn code bindings => exact World.served_of_spawn permitted served
  | setGlobal name value =>
      exact World.served_of_setGlobal (permitted value (by simp [Operation.values])) served
  | terminate id => exact World.served_of_terminate served
  | scriptDone id => exact World.served_of_scriptDone served
  | loadExtension name => exact World.served_of_loadExtension served
  | connect target => exact World.served_of_connect served
  | newArray items =>
      obtain ⟨_, rfl⟩ := Prod.mk.inj (Option.some.inj served)
      exact .apart (.newArray permitted) rfl rfl rfl
  | newBlock code =>
      obtain ⟨_, rfl⟩ := Prod.mk.inj (Option.some.inj served)
      exact .apart (.newBlock permitted) rfl rfl rfl
  | advance seconds =>
      obtain ⟨_, rfl⟩ := Prod.mk.inj (Option.some.inj served)
      exact .apart (.advance seconds) rfl rfl (Scheduler.advance_handles seconds)
  | reap =>
      obtain ⟨_, rfl⟩ := Prod.mk.inj (Option.some.inj served)
      exact .aside .reap rfl rfl (absurd rfl)
  | createObject kind className =>
      obtain ⟨_, rfl⟩ := Prod.mk.inj (Option.some.inj served)
      exact .create kind className
  | updateObject ref change =>
      obtain ⟨_, rfl⟩ := Prod.mk.inj (Option.some.inj served)
      exact .update ref change
  | destroyObject ref =>
      obtain ⟨_, rfl⟩ := Prod.mk.inj (Option.some.inj served)
      exact .destroy ref
  | setPlayer ref =>
      obtain ⟨_, rfl⟩ := Prod.mk.inj (Option.some.inj served)
      exact .setPlayer ref
  | setConnector connector =>
      obtain ⟨_, rfl⟩ := Prod.mk.inj (Option.some.inj served)
      exact .setConnector connector
  | setState id state =>
      obtain ⟨_, rfl⟩ := Prod.mk.inj (Option.some.inj served)
      exact .setState id state
  | disconnect id =>
      obtain ⟨_, rfl⟩ := Prod.mk.inj (Option.some.inj served)
      exact .sessions (.disconnect id)
  | setConfigs | setLoader =>
      obtain ⟨_, rfl⟩ := Prod.mk.inj (Option.some.inj served)
      exact .apart (.equip _ _ _ _) rfl rfl rfl
  | handle | global =>
      obtain ⟨_, rfl⟩ := Prod.mk.inj (Option.some.inj served)
      exact .looks _
  | lookupConfig | log =>
      obtain ⟨_, rfl⟩ := Prod.mk.inj (Option.some.inj served)
      exact .notes _ _

end Served

namespace Situation

variable {permits : Store → Value → Prop} {before after : Situation}

/-- The handle at work makes a step. -/
def Steps (before after : Situation) : Prop :=
  ∃ exec batch, before = .atWork exec batch ∧ after = .atWork exec.advance.2 batch

theorem Next.spares (next : Next permits before after)
    (works : ¬∃ world changed, before = .idle world ∧ after = .idle changed)
    (rests : ¬before.Steps after) :
    after.world.store = before.world.store ∧ after.world.network = before.world.network := by
  cases next with
  | tend => exact absurd ⟨_, _, rfl, rfl⟩ works
  | advance => exact absurd ⟨_, _, rfl, rfl⟩ rests
  | @close exec _ =>
      have same : exec.closed.store = exec.world.store ∧
          exec.closed.network = exec.world.network := by
        unfold Execution.closed
        dsimp only
        split <;> exact ⟨rfl, rfl⟩
      exact same
  | _ => exact ⟨rfl, rfl⟩

theorem Reachable.next (reached : Reachable permits before) (next : Next permits before after) :
    Reachable permits after := by
  cases next with
  | tend tended => exact reached.tend tended
  | execute permitted => exact reached.execute permitted
  | beginTurn => exact reached.beginTurn
  | skip gone => exact reached.skip gone
  | take found => exact reached.take found
  | advance running => exact reached.advance running
  | keep yielded => exact reached.keep yielded
  | close yielded => exact reached.close yielded
  | endTurn => exact reached.endTurn

/-- What is true at first and kept by every rule is true in all reachable situations. -/
theorem Reachable.preserved {motive : Situation → Prop} {situation : Situation}
    (reached : Reachable permits situation)
    (fresh : ∀ settings, motive (.idle (.ofSettings settings)))
    (each : ∀ before after, motive before → Next permits before after → motive after) :
    motive situation := by
  induction reached with
  | fresh settings => exact fresh settings
  | tend _ tended induction => exact each _ _ induction (.tend tended)
  | execute _ permitted induction => exact each _ _ induction (.execute permitted)
  | beginTurn _ induction => exact each _ _ induction .beginTurn
  | skip _ gone induction => exact each _ _ induction (.skip gone)
  | take _ found induction => exact each _ _ induction (.take found)
  | advance _ running induction => exact each _ _ induction (.advance running)
  | keep _ yielded induction => exact each _ _ induction (.keep yielded)
  | close _ yielded induction => exact each _ _ induction (.close yielded)
  | endTurn _ induction => exact each _ _ induction .endTurn

end Situation

namespace Execution

/-- How a run ends with `done`, from some events and an execution: the handle makes one step after
the other as long as it runs. -/
inductive RunsTo (done : Array Event × Execution) : Array Event → Execution → Prop
  | yields (yielded : done.2.handle.state ≠ .running) : RunsTo done done.1 done.2
  | works {events : Array Event} {exec : Execution} (running : exec.handle.state = .running)
      (rest : RunsTo done (events ++ exec.advance.1) exec.advance.2) : RunsTo done events exec

theorem runsTo_of_run {fuel : Nat} {events : Array Event} {exec : Execution}
    {done : Array Event × Execution} (ran : exec.run fuel events = some done) :
    RunsTo done events exec := by
  induction fuel generalizing events exec with
  | zero => simp [run] at ran
  | succ fuel induction =>
      unfold run at ran
      split at ran
      case isTrue running => exact .works running (induction ran)
      case isFalse yielded =>
          obtain rfl := Option.some.inj ran
          exact .yields yielded

end Execution

namespace Situation

variable {permits : Store → Value → Prop}

/-- A relation that leads from one situation to another wherever a machine works by itself. -/
structure Follows (permits : Store → Value → Prop) (leads : Situation → Situation → Prop) :
    Prop where
  refl : ∀ situation, leads situation situation
  trans : ∀ {before middle after}, leads before middle → leads middle after → leads before after
  works : ∀ {before after}, Next permits before after →
    (¬∃ world changed, before = .idle world ∧ after = .idle changed) → leads before after
  clock : ∀ world seconds, leads (.idle world) (.idle (World.advance seconds world))

namespace Follows

variable {leads : Situation → Situation → Prop} {fuel : Nat} {world : World}

theorem run {events : Array Event} {exec : Execution} {batch : Option (List HandleId)}
    {done : Array Event × Execution} (follows : Follows permits leads)
    (ran : exec.run fuel events = some done) :
    leads (.atWork exec batch) (.atWork done.2 batch) ∧ done.2.handle.state ≠ .running := by
  replace ran := Execution.runsTo_of_run ran
  induction ran with
  | yields yielded => exact ⟨follows.refl _, yielded⟩
  | works running _ induction =>
      exact ⟨follows.trans (follows.works (.advance running) (by simp)) induction.1, induction.2⟩

theorem executed {code : CodeBlock} {done : Performed ScriptOutcome}
    (follows : Follows permits leads)
    (permitted : ∀ value ∈ code.constants, permits world.store value)
    (ran : world.execute fuel code = some done) : leads (.idle world) (.idle done.world) := by
  unfold World.execute at ran
  obtain ⟨⟨events, exec⟩, yielded, result⟩ := Option.bind_eq_some_iff.mp ran
  obtain rfl := Option.some.inj result
  have begins : leads (.idle world) (.atWork (world.startAtOnce code) none) :=
    follows.works (.execute permitted) (by simp)
  have worked : leads (.atWork (world.startAtOnce code) none) (.atWork exec none) ∧
      exec.handle.state ≠ .running := follows.run yielded
  exact follows.trans (follows.trans begins worked.1) (follows.works (.close worked.2) (by simp))

theorem runBatch {batch : List HandleId} {events : Array Event} {report : TurnReport}
    {done : Performed TurnReport} (follows : Follows permits leads)
    (ran : World.runBatch fuel batch events report world = some done) :
    leads (.turn batch world) (.idle done.world) := by
  induction batch generalizing events report world with
  | nil =>
      obtain rfl := Option.some.inj ran
      exact follows.works .endTurn (by simp)
  | cons id rest induction =>
      unfold World.runBatch at ran
      split at ran
      case h_1 gone => exact follows.trans (follows.works (.skip gone) (by simp)) (induction ran)
      case h_2 handle found =>
          split at ran
          · simp at ran
          case h_2 events exec yielded =>
              have taken : leads (.turn (id :: rest) world)
                  (.atWork (world.startKept handle) (some rest)) :=
                follows.works (.take found) (by simp)
              have worked : leads (.atWork (world.startKept handle) (some rest))
                  (.atWork exec (some rest)) ∧ exec.handle.state ≠ .running := follows.run yielded
              have kept : leads (.atWork exec (some rest))
                  (.turn rest (World.keep exec.handle exec.world)) :=
                follows.works (.keep worked.2) (by simp)
              exact follows.trans (follows.trans taken worked.1)
                (follows.trans kept (induction ran))

theorem runTurn {done : Performed TurnReport} (follows : Follows permits leads)
    (ran : world.runTurn fuel = some done) : leads (.idle world) (.idle done.world) :=
  follows.trans (follows.works .beginTurn (by simp)) (follows.runBatch ran)

theorem runUntilIdle {turns : Nat} {done : Performed Nat} (follows : Follows permits leads)
    (ran : world.runUntilIdle fuel turns = some done) :
    leads (.idle world) (.idle done.world) := by
  induction turns generalizing world done with
  | zero =>
      obtain rfl := Option.some.inj ran
      exact follows.refl _
  | succ turns induction =>
      unfold World.runUntilIdle at ran
      split at ran
      · obtain rfl := Option.some.inj ran
        exact follows.refl _
      obtain ⟨first, firstRan, ran⟩ := Option.bind_eq_some_iff.mp ran
      have turned := follows.runTurn firstRan
      split at ran
      · obtain rfl := Option.some.inj ran
        exact turned
      · obtain ⟨rest, restRan, result⟩ := Option.bind_eq_some_iff.mp ran
        have remaining := induction restRan
        obtain rfl := Option.some.inj result
        exact follows.trans (follows.trans turned (follows.clock _ _)) remaining
      · obtain ⟨rest, restRan, result⟩ := Option.bind_eq_some_iff.mp ran
        have remaining := induction restRan
        obtain rfl := Option.some.inj result
        exact follows.trans turned remaining

theorem accepted {α : Type} {machine after : Machine} {wrap : α → Answer} {answer : Answer}
    {done : Option (Performed α)}
    (each : ∀ performed, done = some performed →
      leads (.idle machine.world) (.idle performed.world))
    (served : (done.map Machine.ofPerformed).map (Prod.map wrap id) = some (answer, after)) :
    leads (.idle machine.world) (.idle after.world) := by
  rw [Option.map_map] at served
  obtain ⟨performed, found, same⟩ := Option.map_eq_some_iff.mp served
  obtain ⟨_, rfl⟩ := Prod.mk.inj same
  exact each performed found

theorem ran {machine after : Machine} {operation : Operation} {answer : Answer}
    (follows : Follows permits leads)
    (runs : operation.runs = true)
    (permitted : ∀ value ∈ operation.values, permits machine.world.store value)
    (served : machine.serve fuel operation = some (answer, after)) :
    leads (.idle machine.world) (.idle after.world) := by
  cases operation with
  | execute code => exact accepted (fun _ => follows.executed permitted) served
  | runTurn => exact accepted (fun _ => follows.runTurn) served
  | tick seconds =>
      exact accepted (fun _ ran => follows.trans (follows.clock _ _) (follows.runTurn ran)) served
  | runUntilIdle turns => exact accepted (fun _ => follows.runUntilIdle) served
  | _ => simp [Operation.runs] at runs

theorem serve {machine after : Machine} {operation : Operation} {answer : Answer}
    (follows : Follows permits leads)
    (tends : ∀ {after : World}, machine.world.Tended permits after →
      (operation ≠ .reap → Retains (.idle machine.world) (.idle after)) →
      leads (.idle machine.world) (.idle after))
    (permitted : ∀ value ∈ operation.values, permits machine.world.store value)
    (served : machine.serve fuel operation = some (answer, after)) :
    leads (.idle machine.world) (.idle after.world) := by
  cases runs : operation.runs with
  | true => exact follows.ran runs permitted served
  | false =>
      obtain ⟨tended, spares⟩ := (World.served_of_serve runs permitted served).tended
      exact tends tended spares

end Follows

namespace Reachable

variable {fuel : Nat} {world : World}

theorem follows (permits : Store → Value → Prop) :
    Follows permits fun before after => Reachable permits before → Reachable permits after where
  refl _ := id
  trans first second := second ∘ first
  works next _ reached := reached.next next
  clock _ _ reached := reached.tend (.advance _)

theorem run {events : Array Event} {exec : Execution} {batch : Option (List HandleId)}
    {done : Array Event × Execution} (reached : Reachable permits (.atWork exec batch))
    (ran : exec.run fuel events = some done) :
    Reachable permits (.atWork done.2 batch) ∧ done.2.handle.state ≠ .running := by
  obtain ⟨leads, yielded⟩ := (follows permits).run ran
  exact ⟨leads reached, yielded⟩

theorem runTurn {done : Performed TurnReport} (reached : Reachable permits (.idle world))
    (ran : world.runTurn fuel = some done) : Reachable permits (.idle done.world) :=
  (follows permits).runTurn ran reached

/-- Whatever a host asks for leads from a reachable situation to another. -/
theorem serve {machine after : Machine} {operation : Operation} {answer : Answer}
    (reached : Reachable permits (.idle machine.world))
    (permitted : ∀ value ∈ operation.values, permits machine.world.store value)
    (served : machine.serve fuel operation = some (answer, after)) :
    Reachable permits (.idle after.world) :=
  (follows permits).serve (fun tended _ reached => reached.tend tended) permitted served reached

end Reachable

end Situation

theorem Machine.Reachable.idle {permits : Store → Value → Prop} {machine : Machine}
    (reached : machine.Reachable permits) :
    Situation.Reachable permits (.idle machine.world) := by
  induction reached with
  | fresh settings => exact .fresh settings
  | serve _ permitted served induction => exact induction.serve permitted served

end SimScript
